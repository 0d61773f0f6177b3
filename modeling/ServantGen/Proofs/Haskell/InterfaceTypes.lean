import ServantGen.Proofs.Haskell.SharedNames

/-!
# The types of the module of the interface

The module of the interface declares a type for every tag, the type of the whole interface and the
record of handlers, and it imports the types of models and enumerations without qualification. All
these names share one name space, but two mechanisms make them: the types of tags are claimed in a
scope that holds the imported names, and the name of the record is made longer until it is none of
these. What keeps the two apart is how the names end: with the ending of the types of tags or a
digit, or with the ending of the record or an underscore.
-/

namespace ServantGen.Haskell

/-! ## What is declared -/

/-- The words that begin the declaration of a type. -/
def definingWords : List String :=
  ["type", "data", "newtype"]

def definedType? : List String → Option String
  | word :: name :: _ => if word ∈ definingWords then some name else none
  | _ => none

def definedTypes (declarations : List (List String)) : List String :=
  declarations.filterMap definedType?

/-- The types that the module declares: those of the groups, the interface and the record. -/
def ApiModule.ownTypes (api : ApiModule) : List String :=
  api.groups.map EndpointGroup.typeName ++ ["API", api.backend]

def preferredName (context : RenderContext) (tag : String) : String :=
  context.target.convention.base .type tag ++ "API"

def underscored (name : String) (count : Nat) : String :=
  name ++ Text.replicate count "_"

def renaming? : RenderNote → Option Collision
  | .renamed collision => some collision
  | .fallback _ => none

/-! ## The search for the name of the record -/

theorem underscored_succ (name : String) (count : Nat) :
    underscored name (count + 1) = underscored (name ++ "_") count := by
  simp [underscored, Text.replicate, List.replicate_succ, String.join_cons, String.append_assoc]

/-- The search ends, and it ends at the first name that is none of the taken ones. -/
theorem exists_clearOf_eq {taken : List String} {fuel : Nat} {name : String}
    (h : taken.countP (fun own => name.length ≤ own.length) ≤ fuel) :
    ∃ count ≤ fuel, clearOf taken fuel name = underscored name count ∧
      ∀ fewer < count, underscored name fewer ∈ taken := by
  induction fuel generalizing name with
  | zero => exact ⟨0, le_rfl, by simp [clearOf, underscored, Text.replicate], by simp⟩
  | succ fuel ih =>
    by_cases hmem : name ∈ taken
    · have hless := countP_longer_lt hmem
      obtain ⟨count, hcount, heq, hfewer⟩ := @ih (name ++ "_") (by omega)
      refine ⟨count + 1, by omega, ?_, ?_⟩
      · rw [clearOf, if_pos (List.contains_iff_mem.2 hmem), heq, underscored_succ]
      · intro fewer hless
        cases fewer with
        | zero => simpa [underscored, Text.replicate] using hmem
        | succ fewer =>
          rw [underscored_succ]
          exact hfewer fewer (by omega)
    · refine ⟨0, by omega, ?_, by simp⟩
      rw [clearOf, if_neg (mt List.contains_iff_mem.1 hmem)]
      simp [underscored, Text.replicate]

/-! ## How names end -/

/-- The name of the record ends with its last letter or an underscore. -/
theorem getLast?_backendName (context : RenderContext) :
    (backendName context).toList.getLast? = some 'd' ∨
      (backendName context).toList.getLast? = some '_' :=
  clearOf_induction (P := fun name => name.toList.getLast? = some 'd' ∨
    name.toList.getLast? = some '_') (fun name _ => .inr (by simp)) _ _ (.inl (by simp))

/-- A name that the type of a tag prefers ends with a capital. -/
theorem getLast?_preferredName (context : RenderContext) (tag : String) :
    (preferredName context tag).toList.getLast? = some 'I' := by
  simp [preferredName]

/-- The record has no name that is handed out for a tag, with or without a number. -/
theorem NamedAfter.ne_backendName {context : RenderContext} {tag name : String}
    (h : NamedAfter (preferredName context tag) name) : name ≠ backendName context := by
  rintro rfl
  have heq := h.eq_of_hasNoNumber (hasNoNumber_backendName context)
  have hlast := getLast?_preferredName context tag
  rw [← heq] at hlast
  obtain hend | hend := getLast?_backendName context <;> simp [hlast] at hend

/-! ## Names of groups -/

section Groups

variable (context : RenderContext)

theorem map_tag_groupsOf (scope : NameScope) (groups : List TagGroup) :
    (groupsOf context scope groups).1.map EndpointGroup.tag = groups.map TagGroup.tag := by
  induction groups generalizing scope with
  | nil => rfl
  | cons group rest ih => exact congrArg (group.tag :: ·) (ih _)

theorem namedAfter_of_mem_groupsOf (scope : NameScope) (groups : List TagGroup) :
    ∀ group ∈ (groupsOf context scope groups).1,
      NamedAfter (preferredName context group.tag) group.typeName := by
  induction groups generalizing scope with
  | nil => simp [groupsOf]
  | cons group rest ih =>
    exact List.forall_mem_cons.2 ⟨namedAfter_claimFresh scope ["API"] group.tag _, ih _⟩

/-- The notes on an endpoint tell of no renaming. -/
theorem renaming?_of_mem_endpointOf {operation : Operation} :
    ∀ note ∈ (endpointOf context operation).2, renaming? note = none := by
  have hwire : ∀ type subject, ∀ note ∈ (wireType context.api.models type subject).2,
      renaming? note = none := by
    intro type subject
    unfold wireType
    dsimp only
    split <;> [skip; split] <;> simp [renaming?]
  have hpart : ∀ part ∈ routeParts context operation, ∀ note ∈ part.2, renaming? note = none := by
    unfold routeParts
    simp only [List.forall_mem_append, List.forall_mem_flatMap, List.forall_mem_map,
      List.forall_mem_singleton]
    refine ⟨⟨⟨⟨⟨fun segment _ => ?_, fun parameter _ => ?_⟩, fun parameter _ => ?_⟩, ?_⟩, ?_⟩, ?_⟩
    · cases segment with
      | literal text => simp [segmentParts]
      | parameter name type =>
        rw [segmentParts, List.forall_mem_singleton]
        exact hwire _ _
      | root =>
        unfold segmentParts
        dsimp only
        split <;> simp
    · exact queryPart_cases parameter (fun _ _ _ => hwire _ _) fun _ => hwire _ _
    · exact hwire _ _
    · exact forall_mem_cookieParts (by simp)
    · exact forall_mem_bodyParts (by simp)
    · refine verbPart_cases (by simp) fun response _ => ?_
      simp only [headerTypes, List.forall_mem_flatMap, List.forall_mem_map]
      exact fun header _ => hwire _ _
  rw [endpointOf, List.forall_mem_flatMap]
  exact hpart

/-- A group is renamed when its type does not have the name that its tag prefers. -/
def isRenamedGroup (group : EndpointGroup) : Bool :=
  group.typeName != preferredName context group.tag

/-- The notes on names tell of the groups that are renamed, in order, and of no others. -/
theorem renamings_groupsOf (scope : NameScope) (groups : List TagGroup) :
    ((groupsOf context scope groups).2.filterMap renaming?).map
        (fun collision => (collision.raw, collision.preferred, collision.assigned)) =
      ((groupsOf context scope groups).1.filter (isRenamedGroup context)).map fun group =>
        (group.tag, preferredName context group.tag, group.typeName) := by
  induction groups generalizing scope with
  | nil => rfl
  | cons group rest ih =>
    have hendpoints : ((group.operations.map (endpointOf context)).flatMap Prod.snd).filterMap
        renaming? = [] := by
      rw [List.filterMap_eq_nil_iff, List.forall_mem_flatMap, List.forall_mem_map]
      exact fun operation _ => renaming?_of_mem_endpointOf context
    have hcases := scope.claimFresh_cases ["API"] group.tag (preferredName context group.tag)
    simp only [groupsOf, List.filterMap_append, List.map_append, hendpoints, List.append_nil, ih]
    rw [List.filter_cons, isRenamedGroup]
    obtain hkept | ⟨existing, name, hne, -, hrenamed⟩ := hcases
    · rw [preferredName] at hkept
      simp [hkept, preferredName]
    · rw [preferredName] at hrenamed hne
      simp [hrenamed, preferredName, hne, renaming?]

/-- A note tells of a renaming where a group is renamed so. -/
theorem exists_renamed_mem_groupsOf_iff (scope : NameScope) (groups : List TagGroup)
    {raw preferred assigned : String} :
    (∃ existing, .renamed ⟨raw, preferred, existing, assigned⟩ ∈
        (groupsOf context scope groups).2) ↔
      ∃ group ∈ (groupsOf context scope groups).1, isRenamedGroup context group = true ∧
        (group.tag, preferredName context group.tag, group.typeName) =
          (raw, preferred, assigned) := by
  have hmem : (raw, preferred, assigned) ∈ ((groupsOf context scope groups).2.filterMap
        renaming?).map (fun collision => (collision.raw, collision.preferred, collision.assigned)) ↔
      ∃ existing, .renamed ⟨raw, preferred, existing, assigned⟩ ∈
        (groupsOf context scope groups).2 := by
    rw [List.mem_map]
    constructor
    · rintro ⟨⟨_, _, existing, _⟩, hcollision, ⟨⟩⟩
      obtain ⟨note, hnote, heq⟩ := List.mem_filterMap.1 hcollision
      cases note with
      | renamed collision => exact ⟨existing, Option.some.inj heq ▸ hnote⟩
      | fallback message => simp [renaming?] at heq
    · rintro ⟨existing, hnote⟩
      exact ⟨_, List.mem_filterMap.2 ⟨_, hnote, rfl⟩, rfl⟩
  rw [← hmem, renamings_groupsOf, List.mem_map]
  simp only [List.mem_filter, and_assoc]

end Groups

/-! ## What is read -/

namespace ApiModule

variable (context : RenderContext) {api : ApiModule}

/-- Without groups the record has no fields, and the server is that of no routes. -/
theorem rows_code_of_groups_eq_nil (hnone : api.groups = []) :
    (api.code context).rows indentStep = (api.head context).rows indentStep ++
      ["", "-- | The complete API.", "type API = EmptyAPI", "", "api :: Proxy API", "api = Proxy",
       "", "-- | Handlers for every operation, running in @m@.",
       "data " ++ api.backend ++ " (m :: Type -> Type) = " ++ api.backend, "",
       "-- | Serve the API from a backend.",
       "serverFromBackend :: " ++ api.backend ++ " Handler -> Server API",
       "serverFromBackend _ = emptyServer"] := by
  have hcode : api.code context = writeServer api (writeBackend api
      (writeApiType api.groups (api.groups.foldl writeGroup (api.head context))
        |>.blank |>.line "api :: Proxy API" |>.line "api = Proxy" |>.blank)).blank := rfl
  rw [hcode, hnone]
  simp [writeServer, writeBackend, writeApiType, endpoints, hnone]

theorem definedTypes_declarations (api : ApiModule) :
    definedTypes api.declarations = api.ownTypes := by
  have hgroups : ∀ groups : List EndpointGroup,
      definedTypes (groups.map fun group => ["type", group.typeName] ++ "=" ::
        [":<|>"].intercalate (group.endpoints.map fun endpoint => lexemes endpoint.route)) =
      groups.map EndpointGroup.typeName := by
    intro groups
    induction groups with
    | nil => rfl
    | cons group groups ih => exact congrArg (group.typeName :: ·) ih
  rw [declarations, definedTypes, List.filterMap_append]
  exact congrArg (· ++ ["API", api.backend]) (hgroups api.groups)

/-- The module of an interface without operations is read line by line. -/
theorem Readable.exists_declarationsOf_code_of_groups_eq_nil (h : api.Readable)
    (hnone : api.groups = []) : ∃ before,
      declarationsOf ((api.code context).text indentStep) = before ++
        [["type", "API", "=", "EmptyAPI"],
         ["api", "::", "Proxy", "API"],
         ["api", "=", "Proxy"],
         ["data", api.backend, "(", "m", "::", "Type", "->", "Type", ")", "=", api.backend],
         ["serverFromBackend", "::", api.backend, "Handler", "->", "Server", "API"],
         ["serverFromBackend", "_", "=", "emptyServer"]] ∧
      ∀ declaration ∈ before, ∃ word ∈ headWords, declaration.head? = some word := by
  obtain ⟨before, hhead, hbefore⟩ := exists_readsAs_head context api
  refine ⟨before, ?_, hbefore⟩
  obtain ⟨hline, hlexemes⟩ := reads_backendLine h.backend
  have hopening : ReadsAs ["", "-- | The complete API.", "type API = EmptyAPI", "",
      "api :: Proxy API", "api = Proxy", "", "-- | Handlers for every operation, running in @m@."]
      [["type", "API", "=", "EmptyAPI"], ["api", "::", "Proxy", "API"],
       ["api", "=", "Proxy"]] := by decide
  have hrecord := readsAs_rows hline []
  have hcomment : ReadsAs ["", "-- | Serve the API from a backend."] [] := by decide
  have hserver : ReadsAs ["serverFromBackend _ = emptyServer", ""]
      [["serverFromBackend", "_", "=", "emptyServer"]] := by decide
  rw [hlexemes] at hrecord
  have hrows := hhead.append (hopening.append (hrecord.append (hcomment.append
    ((readsAs_serverSignature h.backend).append hserver))))
  have hcode := Code.splitOn_text (isRows_code context h) indentStep
  rw [rows_code_of_groups_eq_nil context hnone] at hcode
  rw [declarationsOf, hcode]
  have hread : readLines _ = ([], _) := hrows
  simp only [List.map_nil, List.cons_append, List.nil_append, List.append_assoc] at hread ⊢
  rw [hread]
  simp

/-- The types that a reader of the text finds are those of the module. -/
theorem Readable.definedTypes_eq (h : api.Readable) :
    definedTypes (declarationsOf ((api.code context).text indentStep)) = api.ownTypes := by
  have hhead : ∀ before : List (List String),
      (∀ declaration ∈ before, ∃ word ∈ headWords, declaration.head? = some word) →
      definedTypes before = [] := by
    intro before hbefore
    refine List.filterMap_eq_nil_iff.2 fun declaration hmem => ?_
    obtain ⟨word, hword, hfirst⟩ := hbefore declaration hmem
    have hnone : word ∉ definingWords :=
      (by decide : ∀ word ∈ headWords, word ∉ definingWords) word hword
    match declaration, hfirst with
    | [_], _ => rfl
    | _ :: _ :: _, rfl => exact if_neg hnone
  by_cases hgroups : api.groups = []
  · obtain ⟨before, hread, hbefore⟩ :=
      h.exists_declarationsOf_code_of_groups_eq_nil context hgroups
    rw [hread, definedTypes, List.filterMap_append]
    refine (congrArg (· ++ _) (hhead before hbefore)).trans ?_
    rw [ownTypes, hgroups]
    rfl
  · obtain ⟨before, hread, hbefore⟩ := exists_declarationsOf_code context h hgroups
    rw [hread, definedTypes, List.filterMap_append]
    exact (congrArg (· ++ _) (hhead before hbefore)).trans (definedTypes_declarations api)

end ApiModule

/-! ## Names apart -/

/-- What types the module of an interface declares, under which names. -/
structure ApiModule.NamesTypes (context : RenderContext) (api : ApiModule) : Prop where
  /-- The types that the module declares have different names, and no model or enumeration has one
  of them. -/
  apart : (api.ownTypes ++ typeNames context).Nodup
  /-- The record has the first name that is free, after as many steps as there are names in the
  way. -/
  backend : ∃ count ≤ (typeNames context).length,
    api.backend = underscored (moduleName context ++ "Backend") count ∧
      api.backend ∉ typeNames context ∧
      ∀ fewer < count, underscored (moduleName context ++ "Backend") fewer ∈ typeNames context
  /-- There is one group for each tag. -/
  tags : api.groups.map EndpointGroup.tag = context.api.tagGroups.map TagGroup.tag
  tagsOnce : (api.groups.map EndpointGroup.tag).Nodup
  /-- A type has another name than its tag prefers where a note tells of it. -/
  renamed : ∀ group ∈ api.groups, group.typeName ≠ preferredName context group.tag ↔
    ∃ existing, .renamed ⟨group.tag, preferredName context group.tag, existing, group.typeName⟩ ∈
      api.notes
  /-- No note tells of any other renaming. -/
  noted : ∀ collision, .renamed collision ∈ api.notes → ∃ group ∈ api.groups,
    collision.raw = group.tag ∧ collision.preferred = preferredName context group.tag ∧
      collision.assigned = group.typeName

section Module

variable {context : RenderContext} (hnames : (typeNames context).Nodup)
  (hfree : "API" ∉ typeNames context) (hconvention : context.target.convention = convention)
include hnames hfree hconvention

/-- The types of the groups, the interface, the record, models and enumerations. -/
theorem nodup_types_of_groupsOf (groups : List TagGroup) :
    ((groupsOf context (scopeOf (typeNames context)) groups).1.map EndpointGroup.typeName ++
      ["API", backendName context] ++ typeNames context).Nodup := by
  let names := (groupsOf context (scopeOf (typeNames context)) groups).1.map EndpointGroup.typeName
  have hnew := @areNew_typeNames context (scopeOf (typeNames context)) groups
  have hscope : ∀ name ∈ names, name ∉ typeNames context := by
    intro name hname hmem
    refine hnew.new name hname ?_
    rw [keys_scopeOf hnames]
    exact List.mem_reverse.2 hmem
  have hgroups : ∀ name ∈ names, name ≠ "API" ∧ name ≠ backendName context := by
    refine List.forall_mem_map.2 fun group hgroup => ⟨?_, ?_⟩
    · exact (isWord_typeName hconvention _ _ group hgroup).2
    · exact (namedAfter_of_mem_groupsOf context _ _ group hgroup).ne_backendName
  have hbackend : "API" ≠ backendName context := by
    intro heq
    have hend := getLast?_backendName context
    rw [← heq] at hend
    exact absurd hend (by decide)
  have hown : (["API", backendName context] ++ typeNames context).Nodup := by
    simpa [hnames, hfree, hbackend] using backendName_notMem_typeNames context
  rw [List.append_assoc]
  refine List.nodup_append.2 ⟨hnew.once, hown, ?_⟩
  rintro name hname _ hother rfl
  obtain ⟨hapi, hrecord⟩ := hgroups name hname
  simp [hapi, hrecord, hscope name hname] at hother

/-- The module of an interface without the names of the module in its own. -/
theorem namesTypes_of_groupsOf : ApiModule.NamesTypes context
    ⟨moduleName context, backendName context,
      (groupsOf context (scopeOf (typeNames context)) context.api.tagGroups).1,
      (groupsOf context (scopeOf (typeNames context)) context.api.tagGroups).2⟩ where
  apart := nodup_types_of_groupsOf hnames hfree hconvention _
  backend := by
    obtain ⟨count, hcount, heq, hfewer⟩ := @exists_clearOf_eq (typeNames context)
      (typeNames context).length (moduleName context ++ "Backend") List.countP_le_length
    exact ⟨count, hcount, heq, backendName_notMem_typeNames context, hfewer⟩
  tags := map_tag_groupsOf context _ _
  tagsOnce := by
    have htags : context.api.tagGroups.map TagGroup.tag =
        context.api.tags.mergeSort fun first second => first ≤ second := by
      rw [Api.tagGroups, List.map_map]
      exact List.map_id _
    rw [map_tag_groupsOf, htags]
    exact (List.mergeSort_perm _ _).nodup_iff.2 context.api.nodup_tags
  renamed := by
    intro group hgroup
    rw [exists_renamed_mem_groupsOf_iff]
    constructor
    · intro hne
      exact ⟨group, hgroup, bne_iff_ne.2 hne, rfl⟩
    · rintro ⟨other, -, hrenamed, heq⟩
      simp only [Prod.mk.injEq] at heq
      obtain ⟨-, hpreferred, hname⟩ := heq
      rw [← hpreferred, ← hname]
      exact bne_iff_ne.1 hrenamed
  noted := by
    rintro ⟨raw, preferred, existing, assigned⟩ hnote
    obtain ⟨group, hgroup, -, heq⟩ := (exists_renamed_mem_groupsOf_iff context _ _).1 ⟨_, hnote⟩
    simp only [Prod.mk.injEq] at heq
    exact ⟨group, hgroup, heq.1.symm, heq.2.1.symm, heq.2.2.symm⟩

end Module

open Lowering (run Notice)

section Lowered

variable {document : Document} {settings : TargetSettings} {api : Api} {notices : List Notice}
  (h : run ⟨document, settings.apply target⟩ = some ⟨.ok api, notices⟩)
  (hkeys : document.tree.hasDistinctKeys = true)
include h hkeys

/-- Whatever the tags, the title and the schemas of a document are named, the types that are read
from the module of the interface have different names, and none of them is that of a model or an
enumeration. The search for the name of the record ends at the first free name, and a type of a tag
has another name than its tag prefers exactly where a note tells of it. -/
theorem interface_types_apart (hmarker : (settings.apply target).rootMarker = "") :
    let context : RenderContext := ⟨api, settings.apply target⟩
    ∃ module text, apiModule context = .ok module ∧ module.NamesTypes context ∧
      apiTemplate.render context .api = .ok (.file text module.notes) ∧
      definedTypes (declarationsOf text) = module.ownTypes := by
  intro context
  have hlegible : context.api.Legible := Lowering.legible_of_run_eq_ok h hkeys rfl
  obtain ⟨final, -, -, declared, added, claimed, haccount⟩ :=
    Lowering.account_of_run_eq_ok h hkeys
  have hnames : (typeNames context).Nodup := by
    rw [typeNames, haccount.namesApart.enums]
    exact haccount.nodup_types
  have hreserved : "API" ∈ (settings.apply target).reserved :=
    List.mem_append_right _ (List.mem_append_left _ (by decide))
  have hfree : "API" ∉ typeNames context :=
    Lowering.notMem_typeNames_of_mem_reserved h hkeys rfl hreserved (by decide)
  obtain ⟨module, hmodule, hreadable, -⟩ := exists_readable_apiModule hlegible rfl hmarker
  refine ⟨module, (module.code context).text indentStep, hmodule, ?_, ?_,
    hreadable.definedTypes_eq context⟩
  · rw [apiModule_eq hlegible.refers] at hmodule
    obtain rfl := Except.ok.inj hmodule
    exact namesTypes_of_groupsOf hnames hfree rfl
  · simp only [apiTemplate, wholeApi, hmodule]
    rfl

end Lowered

/-- Two tags that ask for the name of a schema, and a schema that has the name of the record. -/
theorem interface_types_apart_collisions :
    let tagged (tag : String) : Json := .object [("get", .object [("tags", .array [.string tag])])]
    let tree : Json := .object [
      ("info", .object [("title", .string "Pet")]),
      ("paths", .object [("/a", tagged "pet"), ("/b", tagged "Pet")]),
      ("definitions", .object [("Pet_A_P_I", .object []), ("pet backend", .object [])])]
    let settings : TargetSettings := {}
    ∃ document api notices, Document.ofTree tree = .ok document ∧
      tree.hasDistinctKeys = true ∧
      run ⟨document, settings.apply target⟩ = some ⟨.ok api, notices⟩ ∧
      (settings.apply target).rootMarker = "" ∧
      typeNames ⟨api, settings.apply target⟩ = ["PetAPI", "PetBackend"] ∧
      api.tags = ["pet", "Pet"] ∧ moduleName ⟨api, settings.apply target⟩ = "Pet" ∧
      ∃ module text, apiModule ⟨api, settings.apply target⟩ = .ok module ∧
        module.NamesTypes ⟨api, settings.apply target⟩ ∧
        apiTemplate.render ⟨api, settings.apply target⟩ .api = .ok (.file text module.notes) ∧
        definedTypes (declarationsOf text) = module.ownTypes := by
  intro tagged tree settings
  have hview : ((Document.ofTree tree).toOption.bind fun document =>
      (run ⟨document, settings.apply target⟩).bind fun result => result.outcome.toOption.map
        fun api => (typeNames ⟨api, settings.apply target⟩, api.tags,
          moduleName ⟨api, settings.apply target⟩)) =
      some (["PetAPI", "PetBackend"], ["pet", "Pet"], "Pet") := by
    decide +kernel
  have hkeys : tree.hasDistinctKeys = true := by decide +kernel
  obtain ⟨document, api, notices, hdocument, hrun, hread⟩ := Lowering.exists_run_of_view hview
  simp only [Prod.mk.injEq] at hread
  obtain ⟨hnames, htags, hmodule⟩ := hread
  obtain rfl := Document.eq_of_ofTree hdocument
  exact ⟨_, api, notices, hdocument, hkeys, hrun, rfl, hnames, htags, hmodule,
    interface_types_apart hrun hkeys rfl⟩

end ServantGen.Haskell
