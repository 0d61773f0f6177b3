import ServantGen.Proofs.Haskell.Groups
import ServantGen.Proofs.Haskell.UrlInstances

/-!
# Types that travel in URLs

The module of the interface decides which types can be written into a URL by looking at models;
the module of types decides it once more when it writes instances for what it declares. Both
decide alike: a named type is let into a URL exactly when both instances for it are there. So every
type that travels in a route has its instances, and a type that has none travels as text, which is
noted once unless any value is admitted.
-/

namespace ServantGen.Haskell

/-! ## Agreement on named types -/

/-- A reference to a type with a name of its own: a model of the table or a listed
enumeration. -/
inductive RefersTo (api : Api) : String → DataType → Prop
  | model {model : Model} (h : model ∈ api.models.models) :
      RefersTo api model.name (.named model.name)
  | inline {inline : InlineEnum} (h : inline ∈ api.inlineEnums) (values : List String) :
      RefersTo api inline.name (.enum inline.name values)

/-- A reference carries the name. -/
theorem RefersTo.type_eq {api : Api} {name : String} {type : DataType}
    (h : RefersTo api name type) :
    type = .named name ∨ ∃ values, type = .enum name values := by
  cases h with
  | model h => exact .inl rfl
  | inline h values => exact .inr ⟨values, rfl⟩

def HasUrlInstances (code : Code) (name : String) : Prop :=
  ∀ className ∈ urlClasses, name ∈ instancesIn className code

section Agreement

variable {context : RenderContext} {types : TypesModule} {name : String} {type : DataType}

theorem hasUrlInstances_iff :
    HasUrlInstances (types.code context) name ↔
      ∃ declaration ∈ types.declarations, declaration.body.hasUrlInstances = true ∧
        declaration.name = name := by
  have hmem : ∀ className ∈ urlClasses, (name ∈ instancesIn className (types.code context) ↔
      ∃ declaration ∈ types.declarations, declaration.body.hasUrlInstances = true ∧
        declaration.name = name) := by
    intro className hclass
    rw [TypesModule.instancesIn_code context types hclass]
    simp [and_assoc]
  constructor
  · intro h
    exact (hmem "ToHttpApiData" (by decide)).1 (h _ (by decide))
  · intro h className hclass
    exact (hmem className hclass).2 h

theorem hasUrlText_named (hnames : context.api.models.names.Nodup) {model : Model}
    (h : model ∈ context.api.models.models) :
    hasUrlText context.api.models (.named model.name) = hasUrlShape model.shape := by
  unfold hasUrlText
  dsimp only
  rw [ModelTable.get?_of_mem_models hnames h, Option.map_some]
  cases model.shape with
  | «alias» type => cases type <;> rfl
  | _ => rfl

/-- A reference is let into a URL exactly when both instances for its type are there. -/
theorem hasUrlText_iff (h : context.api.RefersToItself) (hnames : context.api.models.names.Nodup)
    (htypes : typesModule context = .ok types) (hrefers : RefersTo context.api name type) :
    hasUrlText context.api.models type = true ↔ HasUrlInstances (types.code context) name := by
  obtain ⟨models, inlines, hdeclared, hmodels, hinlines⟩ : ∃ models inlines,
      types.declarations = models ++ inlines ∧
      List.Forall₂ (fun model => Declares model.name (hasUrlShape model.shape))
        context.api.models.models models ∧
      List.Forall₂ (fun inline => Declares inline.name true) context.api.inlineEnums inlines := by
    obtain ⟨-, rfl⟩ := typesModule_eq_ok_iff.1 htypes
    exact declarations_declare context _
  rw [hasUrlInstances_iff, hdeclared]
  cases hrefers with
  | @model model hmem =>
    rw [hasUrlText_named hnames hmem]
    constructor
    · intro htravels
      obtain ⟨declaration, hdeclaration, hdeclares⟩ :=
        Outcomes.exists_of_mem_of_forall₂ hmodels.flip hmem
      exact ⟨declaration, List.mem_append_left _ hdeclaration,
        hdeclares.instances.trans htravels, hdeclares.name⟩
    · rintro ⟨declaration, hdeclaration, hinstances, hname⟩
      obtain hdeclaration | hdeclaration := List.mem_append.1 hdeclaration
      · obtain ⟨own, hown, hdeclares⟩ := Outcomes.exists_of_mem_of_forall₂ hmodels hdeclaration
        have hsame : own = model := by
          have hget := ModelTable.get?_of_mem_models hnames hown
          rw [hdeclares.name.symm.trans hname, ModelTable.get?_of_mem_models hnames hmem] at hget
          exact (Option.some.inj hget).symm
        rw [← hsame, ← hdeclares.instances, hinstances]
      · obtain ⟨inline, hinline, hdeclares⟩ :=
          Outcomes.exists_of_mem_of_forall₂ hinlines hdeclaration
        have hapart := h.apart inline hinline
        rw [hdeclares.name.symm.trans hname, ModelTable.contains,
          ModelTable.get?_of_mem_models hnames hmem] at hapart
        simp at hapart
  | @inline inline hmem values =>
    obtain ⟨declaration, hdeclaration, hdeclares⟩ :=
      Outcomes.exists_of_mem_of_forall₂ hinlines.flip hmem
    refine iff_of_true rfl ⟨declaration, List.mem_append_right _ hdeclaration, ?_⟩
    exact ⟨hdeclares.instances, hdeclares.name⟩

end Agreement

/-! ## Types in routes -/

/-- The types in a part of a route that are read from a URL or a header, or written into one. -/
def RoutePart.urlTypes : RoutePart → List DataType
  | .capture _ type | .queryList _ type | .value _ _ type _ => [type]
  | .cookies => [.string]
  | .verb _ _ result => result.headers.map Prod.snd
  | .literal _ | .marker _ | .body .. => []

/-- The type of a query parameter, or of its items when it is repeated. -/
def itemType (type : DataType) : DataType :=
  match type.stripOptional with
  | .array item => item
  | _ => type

/-- What a segment reads from a URL: words for it, and its type. -/
def segmentTypes (operation : Operation) : Segment → List (String × DataType)
  | .parameter name type => [(subjectOf operation "path parameter" name, type)]
  | .literal _ | .root => []

/-- What an operation reads from URLs and headers one by one, and the headers it answers with:
words for each, and its type. -/
def sentTypes (operation : Operation) : List (String × DataType) :=
  operation.path.segments.flatMap (segmentTypes operation) ++
  (operation.parametersIn .query).map (fun parameter =>
    (subjectOf operation "query parameter" parameter.rawName, itemType parameter.type)) ++
  (operation.parametersIn .header).map (fun parameter =>
    (subjectOf operation "header" parameter.rawName, parameter.type)) ++
  (operation.successResponse?.elim [] Response.headers).map fun header =>
    (subjectOf operation "response header" header.name, header.type)

/-- A type that a URL can hold: a primitive type other than any value, or a named type with both
instances. -/
def Travels (context : RenderContext) (types : TypesModule) (type : DataType) : Prop :=
  (∃ kind, kind ≠ Primitive.any ∧ type = .primitive kind) ∨
    ∃ name, RefersTo context.api name type ∧ HasUrlInstances (types.code context) name

/-- The type and the notes with which something is sent. -/
inductive SentAs (context : RenderContext) (types : TypesModule) :
    String × DataType → DataType × List RenderNote → Prop
  /-- A type that travels is sent as it is. -/
  | own {subject : String} {type : DataType} (h : Travels context types type.stripOptional) :
      SentAs context types (subject, type) (type.stripOptional, [])
  /-- Any value is sent as text. -/
  | free {subject : String} {type : DataType} (h : type.stripOptional = .any) :
      SentAs context types (subject, type) (.string, [])
  /-- All else is sent as text, with one note. -/
  | text {subject : String} {type : DataType} (h : ¬ Travels context types type.stripOptional)
      (hany : type.stripOptional ≠ .any) :
      SentAs context types (subject, type) (.string, [.fallback (subject ++ " has type " ++
        typeText type.stripOptional ++ " with no URL encoding; rendered as Text")])

theorem SentAs.travels {context : RenderContext} {types : TypesModule} {source : String × DataType}
    {sent : DataType × List RenderNote} (h : SentAs context types source sent) :
    Travels context types sent.1 := by
  cases h with
  | own h => exact h
  | free h => exact .inl ⟨.string, by decide, rfl⟩
  | text h hany => exact .inl ⟨.string, by decide, rfl⟩

/-- What is sent with parts of a route: the types in them, cookies apart, and the notes. -/
def Sends (context : RenderContext) (types : TypesModule) (sources : List (String × DataType))
    (parts : List NotedPart) : Prop :=
  ∃ sent, List.Forall₂ (SentAs context types) sources sent ∧
    ((parts.map Prod.fst).filter (· ≠ .cookies)).flatMap RoutePart.urlTypes = sent.map Prod.fst ∧
    parts.flatMap Prod.snd = sent.flatMap Prod.snd

namespace Sends

variable {context : RenderContext} {types : TypesModule} {sources : List (String × DataType)}

/-- Parts without types and notes send nothing. -/
theorem nothing {parts : List NotedPart}
    (h : ∀ part ∈ parts, (part.1 = .cookies ∨ part.1.urlTypes = []) ∧ part.2 = []) :
    Sends context types [] parts := by
  refine ⟨[], .nil, ?_, ?_⟩
  · rw [List.map_nil, List.flatMap_eq_nil_iff]
    intro part hpart
    obtain ⟨hmem, hcookies⟩ := List.mem_filter.1 hpart
    obtain ⟨noted, hnoted, rfl⟩ := List.mem_map.1 hmem
    exact (h noted hnoted).1.resolve_left (by simpa using hcookies)
  · rw [List.flatMap_nil, List.flatMap_eq_nil_iff]
    exact fun part hpart => (h part hpart).2

/-- A part with a type for each thing that is sent. -/
theorem one {part : RoutePart} {sent : List (DataType × List RenderNote)}
    {notes : List RenderNote} (h : List.Forall₂ (SentAs context types) sources sent)
    (hpart : part ≠ .cookies) (htypes : part.urlTypes = sent.map Prod.fst)
    (hnotes : notes = sent.flatMap Prod.snd) : Sends context types sources [(part, notes)] :=
  ⟨sent, h, by simp [hpart, htypes], by simp [hnotes]⟩

theorem single {source : String × DataType} {part : RoutePart}
    {sent : DataType × List RenderNote} (h : SentAs context types source sent)
    (hpart : part ≠ .cookies) (htypes : part.urlTypes = [sent.1]) :
    Sends context types [source] [(part, sent.2)] :=
  one (.cons h .nil) hpart htypes (by simp)

theorem append {more : List (String × DataType)} {parts others : List NotedPart}
    (h : Sends context types sources parts) (h' : Sends context types more others) :
    Sends context types (sources ++ more) (parts ++ others) := by
  obtain ⟨sent, hsent, hparts, hnotes⟩ := h
  obtain ⟨rest, hrest, hothers, hmore⟩ := h'
  refine ⟨sent ++ rest, List.rel_append hsent hrest, ?_, ?_⟩
  · rw [List.map_append, List.filter_append, List.flatMap_append, hparts, hothers, List.map_append]
  · rw [List.flatMap_append, hnotes, hmore, List.flatMap_append]

theorem flatMap {α : Type} {items : List α} {source : α → List (String × DataType)}
    {part : α → List NotedPart}
    (h : ∀ item ∈ items, Sends context types (source item) (part item)) :
    Sends context types (items.flatMap source) (items.flatMap part) := by
  induction items with
  | nil => exact nothing (by simp)
  | cons item items ih =>
    obtain ⟨hitem, hitems⟩ := List.forall_mem_cons.1 h
    exact hitem.append (ih hitems)

theorem map {α : Type} {items : List α} {source : α → String × DataType} {part : α → NotedPart}
    (h : ∀ item ∈ items, Sends context types [source item] [part item]) :
    Sends context types (items.map source) (items.map part) := by
  rw [List.map_eq_flatMap, List.map_eq_flatMap]
  exact flatMap h

end Sends

section Sending

variable {context : RenderContext} {types : TypesModule} (h : context.api.RefersToItself)
  (hnames : context.api.models.names.Nodup) (htypes : typesModule context = .ok types)
include h hnames htypes

/-- What is let into a URL travels, and nothing else but any value. -/
theorem hasUrlText_iff_travels {type : DataType} (hany : type ≠ .any)
    (hmodels : ∀ name ∈ type.models, context.api.models.contains name = true)
    (henums : ∀ entry ∈ type.enums, ⟨entry.1, entry.2⟩ ∈ context.api.inlineEnums) :
    hasUrlText context.api.models type = true ↔ Travels context types type := by
  have hrefers : ∀ name, RefersTo context.api name type →
      (hasUrlText context.api.models type = true ↔ Travels context types type) := by
    intro name hname
    rw [hasUrlText_iff h hnames htypes hname]
    refine ⟨fun hinstances => .inr ⟨name, hname, hinstances⟩, ?_⟩
    rintro (⟨kind, -, rfl⟩ | ⟨own, hown, hinstances⟩)
    · cases hname
    · have hsame : own = name := by
        obtain rfl | ⟨values, rfl⟩ := hown.type_eq
        · simpa using hname.type_eq
        · simpa using hname.type_eq
      exact hsame ▸ hinstances
  cases type with
  | primitive kind =>
    have hkind : kind ≠ .any := fun heq => hany (heq ▸ rfl)
    exact iff_of_true rfl (.inl ⟨kind, hkind, rfl⟩)
  | named name =>
    obtain ⟨model, hmem, rfl⟩ := List.mem_map.1 (ModelTable.contains_iff.1 (hmodels name (by
      simp [DataType.models, DataType.parts])))
    exact hrefers _ (.model hmem)
  | enum name values =>
    exact hrefers _ (.inline (henums (name, values) (by
      simp [DataType.enums, DataType.parts])) values)
  | array item => exact iff_of_false (by simp [hasUrlText]) (by rintro (⟨_, _, ⟨⟩⟩ | ⟨_, ⟨⟩, _⟩))
  | map value => exact iff_of_false (by simp [hasUrlText]) (by rintro (⟨_, _, ⟨⟩⟩ | ⟨_, ⟨⟩, _⟩))
  | optional inner =>
    exact iff_of_false (by simp [hasUrlText]) (by rintro (⟨_, _, ⟨⟩⟩ | ⟨_, ⟨⟩, _⟩))

/-- A type is sent as itself, as text, or as text with a note. -/
theorem wireType_sentAs {type : DataType}
    (hmodels : ∀ name ∈ type.models, context.api.models.contains name = true)
    (henums : ∀ entry ∈ type.enums, ⟨entry.1, entry.2⟩ ∈ context.api.inlineEnums)
    (subject : String) :
    SentAs context types (subject, type) (wireType context.api.models type subject) := by
  rw [← DataType.models_stripOptional] at hmodels
  rw [← DataType.enums_stripOptional] at henums
  unfold wireType
  dsimp only
  by_cases hany : type.stripOptional = .any
  · rw [if_pos (by rw [hany]; rfl)]
    exact .free hany
  · have hfree : ¬ type.stripOptional.isAny = true := by
      intro hisAny
      unfold DataType.isAny at hisAny
      split at hisAny
      · rename_i heq
        exact hany heq
      · simp at hisAny
    have htravels := hasUrlText_iff_travels h hnames htypes hany hmodels henums
    rw [if_neg hfree]
    split
    · rename_i hurl
      exact .own (htravels.1 hurl)
    · rename_i hurl
      exact .text (fun htravel => hurl (htravels.2 htravel)) hany

end Sending

section Parts

variable {context : RenderContext} {types : TypesModule} {operation : Operation}

/-- A type that is sent as it should, whatever it is the type of. -/
def IsSent (context : RenderContext) (types : TypesModule) (type : DataType) : Prop :=
  ∀ subject, SentAs context types (subject, type) (wireType context.api.models type subject)

theorem segmentParts_sends {segment : Segment}
    (h : ∀ name type, segment = .parameter name type → IsSent context types type) :
    Sends context types (segmentTypes operation segment)
      (segmentParts context operation segment) := by
  cases segment with
  | literal text =>
    refine .nothing ?_
    simp only [segmentParts, List.forall_mem_map]
    exact fun _ _ => ⟨.inr rfl, trivial⟩
  | parameter name type => exact .single (h name type rfl _) (by simp) rfl
  | root =>
    refine .nothing ?_
    unfold segmentParts
    dsimp only
    split <;> simp [RoutePart.urlTypes]

theorem queryPart_sends {parameter : Parameter}
    (h : IsSent context types (itemType parameter.type)) :
    Sends context types
      [(subjectOf operation "query parameter" parameter.rawName, itemType parameter.type)]
      [queryPart context operation parameter] := by
  cases hstripped : parameter.type.stripOptional with
  | array item =>
    simp only [itemType, hstripped] at h ⊢
    simp only [queryPart, hstripped]
    exact .single (h _) (by simp) rfl
  | primitive _ | named _ | enum _ _ | map _ | optional _ =>
    simp only [itemType, hstripped] at h ⊢
    simp only [queryPart, hstripped]
    exact .single (h _) (by simp) rfl

theorem headerPart_sends {parameter : Parameter} (h : IsSent context types parameter.type) :
    Sends context types [(subjectOf operation "header" parameter.rawName, parameter.type)]
      [headerPart context operation parameter] :=
  .single (h _) (by simp) rfl

theorem verbPart_sends
    (h : ∀ header ∈ operation.successResponse?.elim [] Response.headers,
      IsSent context types header.type) :
    Sends context types
      ((operation.successResponse?.elim [] Response.headers).map fun header =>
        (subjectOf operation "response header" header.name, header.type))
      [verbPart context operation] := by
  unfold verbPart
  cases hresponse : operation.successResponse? with
  | none => exact .nothing (by simp [RoutePart.urlTypes])
  | some response =>
    rw [hresponse] at h
    let sent := response.headers.map fun header => wireType context.api.models header.type
      (subjectOf operation "response header" header.name)
    have hsent : List.Forall₂ (SentAs context types) (response.headers.map fun header =>
        (subjectOf operation "response header" header.name, header.type)) sent := by
      rw [List.forall₂_map_left_iff, List.forall₂_map_right_iff, List.forall₂_same]
      exact fun header hheader => h header hheader _
    refine .one hsent (by simp) ?_ ?_
    · simp [RoutePart.urlTypes, headerTypes, sent]
    · simp [headerTypes, sent, List.flatMap_map]

/-- Cookies and bodies are not sent one by one. -/
theorem otherParts_send (operation : Operation) :
    Sends context types [] (cookieParts operation ++ bodyParts operation) := by
  refine .nothing ?_
  refine List.forall_mem_append.2 ⟨forall_mem_cookieParts ?_, forall_mem_bodyParts fun _ _ => ?_⟩
  · simp [RoutePart.urlTypes]
  · simp [RoutePart.urlTypes]

/-- The types that an operation sends. -/
theorem routeParts_sends (h : ∀ source ∈ sentTypes operation, IsSent context types source.2) :
    Sends context types (sentTypes operation) (routeParts context operation) := by
  unfold sentTypes at h ⊢
  simp only [List.forall_mem_append, List.forall_mem_map, List.forall_mem_flatMap] at h
  obtain ⟨⟨⟨hsegments, hquery⟩, hheaders⟩, hverb⟩ := h
  unfold routeParts
  rw [List.append_assoc _ (cookieParts operation), ← List.append_nil
    (_ ++ (operation.parametersIn .header).map _)]
  refine Sends.append (Sends.append (Sends.append (Sends.append ?_ ?_) ?_) ?_) ?_
  · refine .flatMap fun segment hsegment => segmentParts_sends ?_
    rintro name type rfl
    exact hsegments _ hsegment _ List.mem_cons_self
  · exact .map fun parameter hparameter => queryPart_sends (hquery parameter hparameter)
  · exact .map fun parameter hparameter => headerPart_sends (hheaders parameter hparameter)
  · exact otherParts_send operation
  · exact verbPart_sends hverb

end Parts

/-! ## Both modules -/

section Modules

variable {context : RenderContext} {types : TypesModule} {operation : Operation}

/-- What an operation sends is made of types of the interface. -/
theorem exists_mem_allTypes (hmem : operation ∈ context.api.operations) {source : String × DataType}
    (hsource : source ∈ sentTypes operation) :
    ∃ type ∈ context.api.allTypes, source.2.models = type.models ∧ source.2.enums = type.enums := by
  have hitem : ∀ type : DataType, (itemType type).models = type.models ∧
      (itemType type).enums = type.enums := by
    intro type
    unfold itemType
    split
    · rename_i item hitem
      rw [← DataType.models_stripOptional type, ← DataType.enums_stripOptional type, hitem]
      exact ⟨rfl, rfl⟩
    · exact ⟨rfl, rfl⟩
  have hown : ∀ type ∈ Api.operationTypes operation,
      type ∈ context.api.allTypes := fun type htype =>
    List.mem_append_left _ (List.mem_append_right _ (List.mem_flatMap.2 ⟨operation, hmem, htype⟩))
  have hparameter : ∀ location, ∀ parameter ∈ operation.parametersIn location,
      parameter.type ∈ context.api.allTypes := fun location parameter hparameter =>
    hown _ (List.mem_append_left _ (List.mem_append_left _
      (List.mem_map_of_mem (List.mem_of_mem_filter hparameter))))
  simp only [sentTypes, List.mem_append, List.mem_map, List.mem_flatMap] at hsource
  obtain ((⟨segment, hsegment, hsource⟩ | ⟨parameter, hmem, rfl⟩) | ⟨parameter, hmem, rfl⟩) |
    ⟨header, hheader, rfl⟩ := hsource
  · cases segment with
    | parameter name type =>
      obtain rfl := List.mem_singleton.1 hsource
      refine ⟨type, List.mem_append_right _ (List.mem_flatMap.2 ⟨operation, hmem, ?_⟩), rfl, rfl⟩
      exact List.mem_filterMap.2 ⟨.parameter name type, hsegment, rfl⟩
    | literal text => simp [segmentTypes] at hsource
    | root => simp [segmentTypes] at hsource
  · exact ⟨parameter.type, hparameter _ parameter hmem, hitem parameter.type⟩
  · exact ⟨parameter.type, hparameter _ parameter hmem, rfl, rfl⟩
  · cases hresponse : operation.successResponse? with
    | none => simp [hresponse] at hheader
    | some response =>
      rw [hresponse, Option.elim_some] at hheader
      have hresponse : response ∈ operation.responses := by
        obtain hfound | ⟨-, hfound⟩ := Option.or_eq_some_iff.1 hresponse
        · exact List.mem_of_find?_eq_some hfound
        · exact List.mem_of_find?_eq_some hfound
      refine ⟨header.type, hown _ (List.mem_append_right _ ?_), rfl, rfl⟩
      exact List.mem_flatMap.2 ⟨response, hresponse,
        List.mem_append_right _ (List.mem_map_of_mem hheader)⟩

structure EndpointSends (context : RenderContext) (types : TypesModule) (endpoint : Endpoint)
    (sent : List (DataType × List RenderNote)) : Prop where
  sources : List.Forall₂ (SentAs context types) (sentTypes endpoint.operation) sent
  /-- The types in the route are those that are sent; cookies are sent together as text. -/
  types : (endpoint.parts.filter (· ≠ .cookies)).flatMap RoutePart.urlTypes = sent.map Prod.fst

theorem EndpointSends.travels {endpoint : Endpoint} {sent : List (DataType × List RenderNote)}
    (h : EndpointSends context types endpoint sent) {part : RoutePart}
    (hpart : part ∈ endpoint.parts) {type : DataType} (htype : type ∈ part.urlTypes) :
    Travels context types type := by
  by_cases hcookies : part = .cookies
  · subst hcookies
    obtain rfl := List.mem_singleton.1 htype
    exact .inl ⟨.string, by decide, rfl⟩
  · have hmem : type ∈ (endpoint.parts.filter (· ≠ .cookies)).flatMap RoutePart.urlTypes :=
      List.mem_flatMap.2 ⟨part, List.mem_filter.2 ⟨hpart, by simpa using hcookies⟩, htype⟩
    rw [h.types] at hmem
    obtain ⟨own, hown, rfl⟩ := List.mem_map.1 hmem
    obtain ⟨source, -, hsent⟩ := Outcomes.exists_of_mem_of_forall₂ h.sources hown
    exact hsent.travels

/-- What all endpoints send, and the notes on it. -/
theorem exists_endpointSends {operations : List Operation}
    (h : ∀ operation ∈ operations, ∃ sent,
      EndpointSends context types (endpointOf context operation).1 sent ∧
        (endpointOf context operation).2 = sent.flatMap Prod.snd) :
    ∃ sent, List.Forall₂ (EndpointSends context types)
        (operations.map fun operation => (endpointOf context operation).1) sent ∧
      (operations.flatMap fun operation => (endpointOf context operation).2) =
        sent.flatten.flatMap Prod.snd := by
  induction operations with
  | nil => exact ⟨[], .nil, rfl⟩
  | cons operation operations ih =>
    obtain ⟨hfirst, hrest⟩ := List.forall_mem_cons.1 h
    obtain ⟨sent, hsent, hnotes⟩ := hfirst
    obtain ⟨others, hothers, hmore⟩ := ih hrest
    refine ⟨sent :: others, .cons hsent hothers, ?_⟩
    rw [List.flatMap_cons, hnotes, hmore, List.flatten_cons, List.flatMap_append]

theorem isFallback_of_sentAs {source : String × DataType} {sent : DataType × List RenderNote}
    (h : SentAs context types source sent) : ∀ note ∈ sent.2, isFallback note = true := by
  cases h <;> simp [isFallback]

/-- The two modules agree on what travels in URLs. -/
structure AgreeOnUrls (context : RenderContext) (types : TypesModule) (api : ApiModule) : Prop where
  /-- A reference to a named type is let into a URL exactly when both instances are there. -/
  named : ∀ name type, RefersTo context.api name type →
    (hasUrlText context.api.models type = true ↔ HasUrlInstances (types.code context) name)
  /-- Every type that is read from a URL or a header, or written into one, travels. -/
  travel : ∀ endpoint ∈ api.endpoints, ∀ part ∈ endpoint.parts, ∀ type ∈ part.urlTypes,
    Travels context types type
  /-- There is an endpoint for each operation. -/
  operations : (api.endpoints.map Endpoint.operation).Perm context.api.operations
  /-- A type that does not travel is replaced by text, and the notes on replaced types are one for
  each of them, unless it is any value. -/
  sent : ∃ sent, List.Forall₂ (EndpointSends context types) api.endpoints sent ∧
    api.notes.filter isFallback = sent.flatten.flatMap Prod.snd

/-- The modules of an interface that refers to itself only agree on what travels in URLs. -/
theorem modules_agree_on_urls (h : context.api.RefersToItself)
    (hnames : context.api.models.names.Nodup) :
    ∃ types api, typesModule context = .ok types ∧ apiModule context = .ok api ∧
      AgreeOnUrls context types api := by
  obtain ⟨types, htypes⟩ : ∃ types, typesModule context = .ok types := ⟨_, typesModule_eq_ok h⟩
  have hsends : ∀ operation ∈ context.api.operations, ∃ sent,
      EndpointSends context types (endpointOf context operation).1 sent ∧
        (endpointOf context operation).2 = sent.flatMap Prod.snd := by
    intro operation hmem
    have hsent : ∀ source ∈ sentTypes operation, IsSent context types source.2 := by
      intro source hsource
      obtain ⟨type, htype, hmodels, henums⟩ := exists_mem_allTypes hmem hsource
      exact wireType_sentAs h hnames htypes (hmodels ▸ h.types type htype)
        (henums ▸ h.enums type htype)
    obtain ⟨sent, hsources, hparts, hnotes⟩ := routeParts_sends hsent
    exact ⟨sent, ⟨hsources, hparts⟩, hnotes⟩
  have hgroups : ∀ operation ∈ context.api.tagGroups.flatMap TagGroup.operations,
      operation ∈ context.api.operations := fun _ => mem_operations_of_mem_tagGroups
  obtain ⟨sent, hsent, hnotes⟩ := exists_endpointSends fun operation hmem =>
    hsends operation (hgroups operation hmem)
  have hendpoints := endpoints_groupsOf context (scopeOf (typeNames context)) context.api.tagGroups
  refine ⟨types, _, htypes, apiModule_eq h, fun name type => hasUrlText_iff h hnames htypes, ?_, ?_,
    sent, ?_, ?_⟩
  · intro endpoint hendpoint part hpart type htype
    rw [ApiModule.endpoints, hendpoints, List.mem_map] at hendpoint
    obtain ⟨operation, hmem, rfl⟩ := hendpoint
    obtain ⟨own, hown, -⟩ := hsends operation (hgroups operation hmem)
    exact hown.travels hpart htype
  · rw [ApiModule.endpoints, hendpoints, List.map_map]
    exact (List.map_id _).symm ▸ context.api.tagGroups_perm
  · rw [ApiModule.endpoints, hendpoints]
    exact hsent
  · rw [filter_notes_groupsOf, hnotes, List.filter_eq_self]
    intro note hnote
    obtain ⟨own, hown, hnote⟩ := List.mem_flatMap.1 hnote
    obtain ⟨list, hlist, hown⟩ := List.mem_flatten.1 hown
    obtain ⟨endpoint, -, hendpoint⟩ := Outcomes.exists_of_mem_of_forall₂ hsent hlist
    obtain ⟨source, -, hsource⟩ := Outcomes.exists_of_mem_of_forall₂ hendpoint.sources hown
    exact isFallback_of_sentAs hsource note hnote

/-- An enumeration and a union without alternatives, names for an option, for a name and for an
enumeration, and an operation that takes each of them. -/
theorem modules_agree_on_urls_degenerate :
    let api : Api :=
      { info := ⟨"", "", none⟩
        models := ⟨[
          ⟨"E", "e", none, .enum [], none⟩,
          ⟨"U", "u", none, .union [], none⟩,
          ⟨"O", "o", none, .alias (.optional .string), none⟩,
          ⟨"A", "a", none, .alias (.named "E"), none⟩,
          ⟨"I", "i", none, .alias (.enum "K" ["k"]), none⟩]⟩
        operations := [⟨"get", "get", .get, "/", ⟨[.root]⟩,
          ["E", "U", "O", "A", "I"].map fun name =>
            ⟨name, name, .query, true, .array (.named name), none, none⟩,
          none, [], [], none, none, false⟩] }
    let context : RenderContext := ⟨api, target⟩
    (∃ types api, typesModule context = .ok types ∧ apiModule context = .ok api ∧
      AgreeOnUrls context types api) ∧
    (apiModule context).toOption.map (fun api => (api.endpoints.map Endpoint.route, api.notes)) =
      some (["QueryParams \"E\" E :> QueryParams \"U\" Text :> QueryParams \"O\" Text :> " ++
          "QueryParams \"A\" Text :> QueryParams \"I\" I :> Verb 'GET 200 '[JSON] NoContent"],
        ["U", "O", "A"].map fun name => .fallback ("query parameter '" ++ name ++
          "' of operation 'get' has type " ++ name ++
          " with no URL encoding; rendered as Text")) := by
  intro api context
  have hrefers : context.api.RefersToItself := by
    refine ⟨by decide, ?_, by decide, by decide, by decide, by decide⟩
    simp [context, api]
  exact ⟨modules_agree_on_urls hrefers (by decide), by decide +kernel⟩

end Modules

end ServantGen.Haskell
