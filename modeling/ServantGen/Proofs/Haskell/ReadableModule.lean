import ServantGen.Proofs.Haskell.Groups
import ServantGen.Proofs.Haskell.Handlers

/-!
# The module of a lowered interface can be read

What is written into the module of the interface comes from a document, where texts are free: a
path may have line feeds in it, a name quotes or brackets, and two tags may ask for one name. None
of this is seen in the module. Every line that is written is one line, every route is one
alternative, every handler the type of one field, and the types of the groups have names of their
own.
-/

namespace ServantGen.Haskell

open Text (MadeOf OnOneLine)

/-- An endpoint that is read as it was written: its route is one alternative without parentheses
around it, and its handler the type of one field. -/
structure Endpoint.Readable (endpoint : Endpoint) : Prop where
  id : IsWord endpoint.operation.id
  routeLine : OnOneLine endpoint.route
  handlerLine : OnOneLine endpoint.handler
  route : Phrase ":<|>" (lexemes endpoint.route)
  bare : unwrap? (lexemes endpoint.route) = none
  handler : Phrase "," (lexemes endpoint.handler)

/-- A module with words for names, each of which is declared once, and without empty groups. -/
structure ApiModule.Readable (api : ApiModule) : Prop where
  module : MadeOf Char.isAlphanum api.module
  backend : IsWord api.backend
  groups : ∀ group ∈ api.groups, IsWord group.typeName
  once : (api.groups.map EndpointGroup.typeName).Nodup
  apart : ∀ group ∈ api.groups, group.typeName ≠ "API"
  full : ∀ group ∈ api.groups, group.endpoints ≠ []
  endpoints : ∀ endpoint ∈ api.endpoints, endpoint.Readable

/-! ## Endpoints on one line -/

theorem onOneLine_of_isWord {text : String} (h : IsWord text) : OnOneLine text :=
  h.made.avoids (by decide)

theorem onOneLine_literal (text : String) : OnOneLine (literal text) := by
  have hchar : ∀ c, ∀ d ∈ escapeChar c, (d != '\n') = true := by
    intro c
    unfold escapeChar
    split
    iterate 5 simp
    split
    · rename_i hplain
      rw [List.forall_mem_singleton, bne_iff_ne]
      rintro rfl
      exact absurd hplain (by decide)
    · refine List.forall_mem_cons.2 ⟨by decide, fun d hd => ?_⟩
      have hdigit := Nat.isDigit_of_mem_toDigits (by decide) (by decide) hd
      rw [bne_iff_ne]
      rintro rfl
      exact absurd hdigit (by decide)
  have hbody : ∀ cs, ∀ d ∈ literalBody cs, (d != '\n') = true := by
    intro cs
    fun_induction literalBody cs with
    | case1 => simp
    | case2 c => exact hchar c
    | case3 c d rest closing ih =>
      have hclosing : ∀ d ∈ closing, (d != '\n') = true := by
        simp only [closing]
        split <;> simp
      rw [List.forall_mem_append, List.forall_mem_append]
      exact ⟨⟨hchar c, hclosing⟩, ih⟩
  rw [literal, OnOneLine, Text.madeOf_ofList, List.cons_append, List.forall_mem_cons,
    List.forall_mem_append]
  exact ⟨by decide, hbody _, by simp⟩

theorem onOneLine_asArgument {text : String} (h : OnOneLine text) :
    OnOneLine (asArgument text) := by
  unfold asArgument
  split
  · exact Text.madeOf_append.2 ⟨Text.madeOf_append.2 ⟨by decide, h⟩, by decide⟩
  · exact h

/-- A type is on one line where the names in it are. -/
theorem onOneLine_typeText_of_names {type : DataType}
    (hmodels : ∀ name ∈ type.models, OnOneLine name)
    (henums : ∀ entry ∈ type.enums, OnOneLine entry.1) : OnOneLine (typeText type) := by
  induction type with
  | primitive kind => exact onOneLine_of_isWord (isWord_primitiveName kind)
  | named name => exact hmodels name List.mem_cons_self
  | enum name values => exact henums (name, values) List.mem_cons_self
  | array item ih =>
    exact Text.madeOf_append.2 ⟨Text.madeOf_append.2 ⟨by decide, ih hmodels henums⟩, by decide⟩
  | map value ih =>
    exact Text.madeOf_append.2 ⟨by decide, onOneLine_asArgument (ih hmodels henums)⟩
  | optional inner ih =>
    exact Text.madeOf_append.2 ⟨by decide, onOneLine_asArgument (ih hmodels henums)⟩

theorem onOneLine_typeText {type : DataType} (h : HasWords type) : OnOneLine (typeText type) :=
  onOneLine_typeText_of_names (fun name hname => onOneLine_of_isWord (h.models name hname))
    fun entry hentry => onOneLine_of_isWord (h.enums entry hentry)

theorem onOneLine_atomText {type : DataType} (h : HasWords type) : OnOneLine (atomText type) :=
  onOneLine_asArgument (onOneLine_typeText h)

theorem onOneLine_result {result : ResultType}
    (h : ∀ type ∈ result.body.toList ++ result.headers.map Prod.snd, HasWords type) :
    OnOneLine result.text := by
  rw [List.forall_mem_append, List.forall_mem_map] at h
  obtain ⟨hbody, hheaders⟩ := h
  have hbodyText : OnOneLine result.bodyText := by
    unfold ResultType.bodyText
    split
    · rename_i type htype
      exact onOneLine_atomText (hbody type (by simp [htype]))
    · decide
  unfold ResultType.text
  dsimp only
  split
  · exact hbodyText
  · have hlist : ∀ header ∈ result.headers.map fun header =>
        "Header " ++ literal header.1 ++ " " ++ atomText header.2, OnOneLine header := by
      rw [List.forall_mem_map]
      intro header hheader
      simp only [Text.madeOf_append]
      exact ⟨⟨⟨by decide, onOneLine_literal _⟩, by decide⟩,
        onOneLine_atomText (hheaders header hheader)⟩
    have hheaders := Text.madeOf_join (show OnOneLine ", " by decide) hlist
    simp only [Text.madeOf_append]
    exact ⟨⟨⟨⟨by decide, hheaders⟩, by decide⟩, hbodyText⟩, by decide⟩

theorem onOneLine_named {combinator : String} (h : OnOneLine combinator) (name : String)
    {type : DataType} (htype : HasWords type) :
    OnOneLine (combinator ++ literal name ++ " " ++ atomText type) := by
  simp only [Text.madeOf_append]
  exact ⟨⟨⟨h, onOneLine_literal name⟩, by decide⟩, onOneLine_atomText htype⟩

namespace RoutePart

variable {part : RoutePart} (h : part.Readable)
include h

theorem onOneLine_text : OnOneLine part.text := by
  cases part with
  | literal component => exact onOneLine_literal component
  | marker text => exact (h.marker text rfl).elim
  | capture name type => exact onOneLine_named (by decide) name (h.words type List.mem_cons_self)
  | queryList name item => exact onOneLine_named (by decide) name (h.words item List.mem_cons_self)
  | value carrier name type required =>
    have htype := h.words type List.mem_cons_self
    have hcarrier : OnOneLine carrier.combinator := by cases carrier <;> decide
    cases required with
    | true => exact onOneLine_named (Text.madeOf_append.2 ⟨hcarrier, by decide⟩) name htype
    | false => exact onOneLine_named (Text.madeOf_append.2 ⟨hcarrier, by decide⟩) name htype
  | cookies => decide
  | body type required =>
    have htype := onOneLine_atomText (h.words type List.mem_cons_self)
    cases required with
    | true => exact Text.madeOf_append.2 ⟨by decide, htype⟩
    | false => exact Text.madeOf_append.2 ⟨MadeOf.ofList (by decide), htype⟩
  | verb method status result =>
    have hmethod : OnOneLine method.name := by cases method <;> decide
    have hstatus := onOneLine_of_isWord (isWord_decimal status)
    have hlead : OnOneLine
        ("Verb '" ++ method.name ++ " " ++ Text.decimal status ++ " '[JSON] ") := by
      simp only [Text.madeOf_append]
      exact ⟨⟨⟨⟨by decide, hmethod⟩, by decide⟩, hstatus⟩, by decide⟩
    exact Text.madeOf_append.2 ⟨hlead, onOneLine_result h.words⟩

theorem onOneLine_argument : ∀ argument ∈ part.argument?, OnOneLine argument := by
  have hmaybe : ∀ type, HasWords type → OnOneLine ("Maybe " ++ atomText type) :=
    fun type htype => Text.madeOf_append.2 ⟨by decide, onOneLine_atomText htype⟩
  cases part with
  | literal component => simp [argument?]
  | marker text => exact (h.marker text rfl).elim
  | capture name type =>
    rintro _ ⟨⟩
    exact onOneLine_typeText (h.words type List.mem_cons_self)
  | queryList name item =>
    rintro _ ⟨⟩
    have hitem := onOneLine_typeText (h.words item List.mem_cons_self)
    exact Text.madeOf_append.2 ⟨Text.madeOf_append.2 ⟨by decide, hitem⟩, by decide⟩
  | value carrier name type required =>
    have htype := h.words type List.mem_cons_self
    cases required with
    | true =>
      rintro _ ⟨⟩
      exact onOneLine_typeText htype
    | false =>
      rintro _ ⟨⟩
      exact hmaybe type htype
  | cookies =>
    rintro _ ⟨⟩
    decide
  | body type required =>
    have htype := h.words type List.mem_cons_self
    cases required with
    | true =>
      rintro _ ⟨⟩
      exact onOneLine_typeText htype
    | false =>
      rintro _ ⟨⟩
      exact hmaybe type htype
  | verb method status result =>
    rintro _ ⟨⟩
    exact Text.madeOf_append.2 ⟨by decide, onOneLine_result h.words⟩

end RoutePart

/-! ## The module on lines -/

namespace ApiModule

variable (context : RenderContext) {api : ApiModule}

theorem onOneLine_endpointLines {lead : String} (hlead : OnOneLine lead) {endpoint : Endpoint}
    (h : endpoint.Readable) : ∀ line ∈ endpointLines lead endpoint, OnOneLine line := by
  have hmethod : OnOneLine endpoint.operation.method.name := by
    cases endpoint.operation.method <;> decide
  simp only [endpointLines, List.forall_mem_cons, List.not_mem_nil, false_imp_iff, implies_true,
    Text.madeOf_append, onOneLine_commentText, onOneLine_of_isWord h.id, hmethod, hlead,
    h.routeLine, and_true]
  exact ⟨⟨by decide, by decide⟩, by decide⟩

theorem onOneLine_handlerDoc? {operation : Operation} {doc : String}
    (h : handlerDoc? operation = some doc) : OnOneLine doc := by
  unfold handlerDoc? at h
  obtain ⟨text, -, hdoc⟩ := Option.bind_eq_some_iff.1 h
  have htext := onOneLine_commentText text
  dsimp only at hdoc
  split at hdoc
  · simp at hdoc
  · split at hdoc
    · obtain rfl := Option.some.inj hdoc
      exact Text.madeOf_append.2 ⟨by decide, htext⟩
    · obtain rfl := Option.some.inj hdoc
      exact htext

theorem onOneLine_handlerLines {lead : String} (hlead : OnOneLine lead) {endpoint : Endpoint}
    (h : endpoint.Readable) : ∀ line ∈ handlerLines lead endpoint, OnOneLine line := by
  have hsignature : OnOneLine (endpoint.operation.id ++ " :: " ++ endpoint.handler) := by
    simp only [Text.madeOf_append]
    exact ⟨⟨onOneLine_of_isWord h.id, by decide⟩, h.handlerLine⟩
  unfold handlerLines
  dsimp only
  split
  · rename_i doc hdoc
    have hcomment : OnOneLine (lead ++ "-- | " ++ doc) := by
      simp only [Text.madeOf_append]
      exact ⟨⟨hlead, by decide⟩, onOneLine_handlerDoc? hdoc⟩
    simp only [List.forall_mem_cons, List.not_mem_nil, false_imp_iff, implies_true, and_true]
    exact ⟨hcomment, Text.madeOf_append.2 ⟨by decide, hsignature⟩⟩
  · exact List.forall_mem_singleton.2 (Text.madeOf_append.2 ⟨hlead, hsignature⟩)

section Rows

variable {code : Code}

theorem isRows_writeGroup (hcode : code.IsRows) {group : EndpointGroup}
    (hname : IsWord group.typeName) (h : ∀ endpoint ∈ group.endpoints, endpoint.Readable) :
    (writeGroup code group).IsRows := by
  have htype : OnOneLine ("type " ++ group.typeName ++ " =") := by
    simp only [Text.madeOf_append]
    exact ⟨⟨by decide, onOneLine_of_isWord hname⟩, by decide⟩
  have hcomment : OnOneLine ("-- | Operations tagged @" ++ commentText group.tag ++ "@.") := by
    simp only [Text.madeOf_append]
    exact ⟨⟨MadeOf.ofList (by decide), onOneLine_commentText _⟩, by decide⟩
  have hlines : ∀ lead, OnOneLine lead → ∀ endpoint ∈ group.endpoints,
      ∀ line ∈ endpointLines lead endpoint, OnOneLine line := fun lead hlead endpoint hendpoint =>
    onOneLine_endpointLines hlead (h endpoint hendpoint)
  unfold writeGroup
  simp only [Code.isRows_dedent, Code.isRows_lines, Code.isRows_indent, Code.isRows_line,
    Code.isRows_blank, hcode, hcomment, htype, true_and]
  split
  · simp
  · rename_i first rest hcons
    rw [hcons] at hlines
    rw [List.forall_mem_append, List.forall_mem_flatMap]
    exact ⟨hlines "" (by decide) first List.mem_cons_self, fun endpoint hendpoint =>
      hlines _ (by decide) endpoint (List.mem_cons_of_mem _ hendpoint)⟩

theorem isRows_writeApiType (hcode : code.IsRows) {groups : List EndpointGroup}
    (hnames : ∀ group ∈ groups, IsWord group.typeName) : (writeApiType groups code).IsRows := by
  have hlines : ∀ line ∈ marked "" (alternative ++ " ") (groups.map EndpointGroup.typeName),
      OnOneLine line := by
    have hword : ∀ name ∈ groups.map EndpointGroup.typeName, OnOneLine name :=
      List.forall_mem_map.2 fun group hgroup => onOneLine_of_isWord (hnames group hgroup)
    exact forall_mem_marked (fun name hname => Text.madeOf_append.2 ⟨by decide, hword name hname⟩)
      fun name hname => Text.madeOf_append.2 ⟨by decide, hword name hname⟩
  unfold writeApiType
  dsimp only
  split
  · simp only [Code.isRows_line, Code.isRows_blank, hcode, true_and]
    exact ⟨by decide, by decide⟩
  · simp only [Code.isRows_dedent, Code.isRows_lines, Code.isRows_indent, Code.isRows_line,
      Code.isRows_blank, hcode, true_and]
    exact ⟨⟨by decide, by decide⟩, hlines⟩

theorem isRows_writeBackend (hcode : code.IsRows) (h : api.Readable) :
    (writeBackend api code).IsRows := by
  have hbackend := onOneLine_of_isWord h.backend
  have hhead : OnOneLine ("data " ++ api.backend ++ " (m :: Type -> Type) = " ++ api.backend) := by
    simp only [Text.madeOf_append]
    exact ⟨⟨⟨by decide, hbackend⟩, MadeOf.ofList (by decide)⟩, hbackend⟩
  have hcomment : OnOneLine "-- | Handlers for every operation, running in @m@." :=
    MadeOf.ofList (by decide)
  have hlines : ∀ lead, OnOneLine lead → ∀ endpoint ∈ api.endpoints,
      ∀ line ∈ handlerLines lead endpoint, OnOneLine line := fun lead hlead endpoint hendpoint =>
    onOneLine_handlerLines hlead (h.endpoints endpoint hendpoint)
  unfold writeBackend
  dsimp only
  split
  · simp only [Code.isRows_line, hcode, hcomment, hhead, and_true]
  · rename_i first rest hcons
    rw [hcons] at hlines
    simp only [Code.isRows_dedent, Code.isRows_lines, Code.isRows_indent, Code.isRows_line, hcode,
      hcomment, hhead, true_and, List.forall_mem_append, List.forall_mem_flatMap]
    exact ⟨⟨hlines _ (by decide) first List.mem_cons_self, fun endpoint hendpoint =>
      hlines _ (by decide) endpoint (List.mem_cons_of_mem _ hendpoint)⟩, by decide⟩

theorem onOneLine_serverGroup (several : Bool) {group : EndpointGroup}
    (h : ∀ endpoint ∈ group.endpoints, endpoint.Readable) :
    OnOneLine (serverGroup several group) := by
  have hjoined : OnOneLine (Text.join (" " ++ alternative ++ " ")
      (group.endpoints.map fun endpoint => endpoint.operation.id)) :=
    Text.madeOf_join (by decide) (List.forall_mem_map.2 fun endpoint hendpoint =>
      onOneLine_of_isWord (h endpoint hendpoint).id)
  unfold serverGroup
  dsimp only
  split
  · simp only [Text.madeOf_append]
    exact ⟨⟨by decide, hjoined⟩, by decide⟩
  · exact hjoined

theorem isRows_writeServer (hcode : code.IsRows) (h : api.Readable) :
    (writeServer api code).IsRows := by
  have hbackend := onOneLine_of_isWord h.backend
  have hcomment : OnOneLine "-- | Serve the API from a backend." := MadeOf.ofList (by decide)
  have hsignature :
      OnOneLine ("serverFromBackend :: " ++ api.backend ++ " Handler -> Server API") := by
    simp only [Text.madeOf_append]
    exact ⟨⟨MadeOf.ofList (by decide), hbackend⟩, MadeOf.ofList (by decide)⟩
  have hname : OnOneLine ("serverFromBackend " ++ api.backend ++ " \x7b..\x7d =") := by
    simp only [Text.madeOf_append]
    exact ⟨⟨by decide, hbackend⟩, by decide⟩
  have hservers : ∀ server ∈ api.groups.map (serverGroup (api.groups.length > 1)),
      OnOneLine server := by
    rw [List.forall_mem_map]
    intro group hgroup
    refine onOneLine_serverGroup _ fun endpoint hendpoint => ?_
    exact h.endpoints endpoint (List.mem_flatMap.2 ⟨group, hgroup, hendpoint⟩)
  have hlines := @forall_mem_marked OnOneLine "" (alternative ++ " ") _
    (fun server hserver => Text.madeOf_append.2 ⟨by decide, hservers server hserver⟩)
    fun server hserver => Text.madeOf_append.2 ⟨by decide, hservers server hserver⟩
  unfold writeServer
  dsimp only
  split
  · simp only [Code.isRows_line, hcode, hcomment, hsignature, true_and]
    exact MadeOf.ofList (by decide)
  · simp only [Code.isRows_dedent, Code.isRows_lines, Code.isRows_indent, Code.isRows_line, hcode,
      hcomment, hsignature, hname, true_and]
    exact hlines

end Rows

theorem isRows_foldl_writeGroup {code : Code} (hcode : code.IsRows) {groups : List EndpointGroup}
    (hnames : ∀ group ∈ groups, IsWord group.typeName)
    (h : ∀ group ∈ groups, ∀ endpoint ∈ group.endpoints, endpoint.Readable) :
    (groups.foldl writeGroup code).IsRows := by
  induction groups generalizing code with
  | nil => exact hcode
  | cons group groups ih =>
    obtain ⟨hname, hnames⟩ := List.forall_mem_cons.1 hnames
    obtain ⟨hgroup, hgroups⟩ := List.forall_mem_cons.1 h
    exact ih (isRows_writeGroup hcode hname hgroup) hnames hgroups

theorem isRows_code (h : api.Readable) : (api.code context).IsRows := by
  have hplain : api.HasPlainNames := ⟨h.module, onOneLine_of_isWord h.backend, fun group hgroup =>
    onOneLine_of_isWord (h.groups group hgroup)⟩
  have hgroups := isRows_foldl_writeGroup (isRows_head context hplain) h.groups
    fun group hgroup endpoint hendpoint =>
      h.endpoints endpoint (List.mem_flatMap.2 ⟨group, hgroup, hendpoint⟩)
  have hproxy : (writeApiType api.groups (api.groups.foldl writeGroup (api.head context))
      |>.blank |>.line "api :: Proxy API" |>.line "api = Proxy" |>.blank).IsRows := by
    simp only [Code.isRows_line, Code.isRows_blank, isRows_writeApiType hgroups h.groups, true_and]
    exact ⟨by decide, by decide⟩
  exact isRows_writeServer ((Code.isRows_blank _).2 (isRows_writeBackend hproxy h)) h

end ApiModule

/-! ## Endpoints of a legible interface -/

theorem unwrap?_eq_none {list : List String} (h : list.head? ≠ some "(") : unwrap? list = none := by
  unfold unwrap?
  split
  · simp at h
  · rfl

/-- A part begins with a word or a literal. -/
theorem RoutePart.exists_lead_eq_cons {part : RoutePart} (h : part.Readable) :
    ∃ first rest, part.lead = first :: rest ∧ isPlainLexeme first = true := by
  cases part with
  | literal component => exact ⟨_, _, rfl, isPlainLexeme_literal component⟩
  | marker text => exact (h.marker text rfl).elim
  | value carrier name type required =>
    have hcarrier : isPlainLexeme carrier.combinator = true ∧
        isPlainLexeme (carrier.combinator ++ "'") = true := by
      cases carrier <;> decide
    cases required with
    | true => exact ⟨_, _, rfl, hcarrier.2⟩
    | false => exact ⟨_, _, rfl, hcarrier.1⟩
  | body type required => cases required <;> exact ⟨_, _, rfl, by decide⟩
  | capture _ _ | queryList _ _ | cookies | verb _ _ _ => exact ⟨_, _, rfl, by decide⟩

section Endpoints

variable {context : RenderContext} {operation : Operation}

theorem readable_endpointOf (h : context.api.Legible) (hmarker : context.target.rootMarker = "")
    (hmem : operation ∈ context.api.operations) : (endpointOf context operation).1.Readable := by
  have halone := h.routes operation hmem
  have hparts : ∀ part ∈ tokenParts context operation, part.Readable :=
    readable_tokenParts (h.operationTypes hmem) (h.routeTypes hmem)
  have hroute : (endpointOf context operation).1.route =
      Text.join " :> " ((tokenParts context operation).map RoutePart.text) := by
    rw [route_eq_markerText_append halone, markerText, if_neg (by simp [hmarker]),
      String.empty_append]
  have htexts : ∀ text ∈ (tokenParts context operation).map RoutePart.text,
      OnOneLine text ∧ PhraseText text :=
    List.forall_mem_map.2 fun part hpart => ⟨RoutePart.onOneLine_text (hparts part hpart),
      RoutePart.phraseText_text (hparts part hpart)⟩
  have harguments : ∀ argument ∈ (tokenParts context operation).filterMap RoutePart.argument?,
      OnOneLine argument ∧ PhraseText argument := by
    intro argument hargument
    obtain ⟨part, hpart, heq⟩ := List.mem_filterMap.1 hargument
    exact ⟨RoutePart.onOneLine_argument (hparts part hpart) argument heq,
      RoutePart.phraseText_argument (hparts part hpart) argument heq⟩
  have hmark : Spells " :> " [":>"] := by decide
  have harrow : Spells " -> " ["->"] := by decide
  have hlexemes := (endsPlainly_join hmark (by decide) fun text htext =>
    (htexts text htext).2.ends).2
  have hhandler := (endsPlainly_join harrow (by decide) fun argument hargument =>
    (harguments argument hargument).2.ends).2
  refine {
    id := h.operations operation hmem
    routeLine := ?_
    handlerLine := ?_
    route := ?_
    bare := ?_
    handler := ?_ }
  · rw [hroute]
    exact Text.madeOf_join (by decide) fun text htext => (htexts text htext).1
  · rw [handler_eq_join halone]
    exact Text.madeOf_join (by decide) fun argument hargument => (harguments argument hargument).1
  · rw [hroute, hlexemes]
    refine Phrase.intercalate (by decide) (List.forall_mem_map.2 fun text htext => ?_)
    exact (htexts text htext).2.phrase _ (by decide)
  · rw [hroute, hlexemes]
    refine unwrap?_eq_none ?_
    cases htokens : tokenParts context operation with
    | nil => exact absurd htokens tokenParts_ne_nil
    | cons part parts =>
      obtain ⟨first, rest, hlead, hplain⟩ :=
        RoutePart.exists_lead_eq_cons (hparts part (htokens ▸ List.mem_cons_self))
      rw [List.map_cons, List.map_cons, intercalate_cons, RoutePart.lexemes_text, hlead]
      simp only [List.cons_append, List.head?_cons, ne_eq, Option.some.injEq]
      rintro rfl
      exact absurd hplain (by decide)
  · rw [handler_eq_join halone, hhandler]
    refine Phrase.intercalate (by decide) (List.forall_mem_map.2 fun argument hargument => ?_)
    exact (harguments argument hargument).2.phrase _ (by decide)

end Endpoints

/-! ## Names of groups -/

section Names

variable {context : RenderContext}

/-- A name that was claimed is the preferred one, perhaps with a number behind it. -/
theorem exists_name_claimFresh (scope : NameScope) (reserved : List String)
    (raw preferred : String) : ∃ more, MadeOf Char.isAlphanum more ∧
      (scope.claimFresh reserved raw preferred).1.name = preferred ++ more := by
  obtain heq | ⟨_, _, -, ⟨number, rfl⟩, heq⟩ := scope.claimFresh_cases reserved raw preferred
  · exact ⟨"", by decide, by simp [heq]⟩
  · refine ⟨Text.decimal number, ?_, by rw [heq, NameScope.numbered]⟩
    exact (Text.madeOf_decimal number).mono fun _ => Text.isAlphanum_of_isDigit

/-- The types of groups have names of their own. -/
theorem areNew_typeNames (scope : NameScope) (groups : List TagGroup) :
    scope.AreNew ((groupsOf context scope groups).1.map EndpointGroup.typeName) := by
  induction groups generalizing scope with
  | nil => exact scope.areNew_nil
  | cons group rest ih => exact (ih _).cons_claimFresh

variable (hconvention : context.target.convention = convention)
include hconvention

theorem isWord_backendName : IsWord (backendName context) := by
  refine clearOf_induction (fun name hname => hname.append (by decide)) _ _ ?_
  refine IsWord.append ?_ (by decide)
  rw [moduleName, hconvention]
  exact isWord_base _ _

/-- The type of a group is a word, and not that of the whole interface. -/
theorem isWord_typeName (scope : NameScope) (groups : List TagGroup) :
    ∀ group ∈ (groupsOf context scope groups).1,
      IsWord group.typeName ∧ group.typeName ≠ "API" := by
  induction groups generalizing scope with
  | nil => simp [groupsOf]
  | cons group rest ih =>
    refine List.forall_mem_cons.2 ⟨?_, ih _⟩
    have hbase : IsWord (context.target.convention.base .type group.tag) := by
      rw [hconvention]
      exact isWord_base _ _
    obtain ⟨more, hmore, hname⟩ := exists_name_claimFresh scope ["API"] group.tag
      (context.target.convention.base .type group.tag ++ "API")
    show IsWord (scope.claimFresh _ _ _).1.name ∧ (scope.claimFresh _ _ _).1.name ≠ "API"
    rw [hname]
    refine ⟨(hbase.append (by decide)).append (hmore.mono fun c hc => by simp [hc]), fun heq => ?_⟩
    -- There is at least one character in front of the ending.
    have hlength := congrArg String.length heq
    have hshort : "API".length = 3 := by decide
    have hlong : (context.target.convention.base .type group.tag).length ≠ 0 := by
      simpa using hbase.ne_empty
    rw [String.length_append, String.length_append, hshort] at hlength
    omega

end Names

/-! ## The module of a legible interface -/

/-- The module of a legible interface can be read, and its endpoints are those of the operations
tag by tag. -/
theorem exists_readable_apiModule {context : RenderContext} (h : context.api.Legible)
    (hconvention : context.target.convention = convention)
    (hmarker : context.target.rootMarker = "") :
    ∃ module, apiModule context = .ok module ∧ module.Readable ∧
      module.backend = backendName context ∧
      module.endpoints = (context.api.tagGroups.flatMap TagGroup.operations).map fun operation =>
        (endpointOf context operation).1 := by
  have hnames := isWord_typeName hconvention (scopeOf (typeNames context)) context.api.tagGroups
  have hendpoints := endpoints_groupsOf context (scopeOf (typeNames context)) context.api.tagGroups
  refine ⟨_, apiModule_eq h.refers, ?_, rfl, hendpoints⟩
  exact {
    module := madeOf_moduleName hconvention
    backend := isWord_backendName hconvention
    groups := fun group hgroup => (hnames group hgroup).1
    once := (areNew_typeNames _ _).once
    apart := fun group hgroup => (hnames group hgroup).2
    full := by
      intro group hgroup
      have hown := List.mem_map_of_mem (f := EndpointGroup.endpoints) hgroup
      rw [map_endpoints_groupsOf] at hown
      obtain ⟨tagged, htagged, heq⟩ := List.mem_map.1 hown
      rw [← heq, ne_eq, List.map_eq_nil_iff]
      exact Api.operations_ne_nil_of_mem_tagGroups htagged
    endpoints := by
      rw [ApiModule.endpoints, hendpoints, List.forall_mem_map]
      exact fun operation hmem =>
        readable_endpointOf h hmarker (mem_operations_of_mem_tagGroups hmem) }

end ServantGen.Haskell
