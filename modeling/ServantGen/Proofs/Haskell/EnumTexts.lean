import ServantGen.Proofs.Haskell.FieldLabels
import ServantGen.Proofs.Lowering.ListedValues

/-!
# Texts of enumerations

An enumeration travels as text. One instance sends each constructor to a literal, another one sends
literals to constructors and rejects all other texts, and JSON goes by way of both. The two case
expressions are written from one list of constructors and values, but the first alternative that
matches counts: the constructors of a value that is listed more than once are all sent to it, and
it is read as the first of them.
-/

namespace ServantGen.Haskell

/-! ## Reading case expressions -/

/-- What a case expression over constructors answers. -/
def textOf? (constructor : String) : List String → Option String
  | own :: "->" :: text :: rest =>
    if own = constructor then unquote? text else textOf? constructor rest
  | _ => none

/-- A part of a message about a text: a literal, or the text itself. -/
def messagePart? (text part : String) : Option String :=
  if part = "other" then some text else unquote? part

/-- A message about a text: its parts up to the closing bracket, put together. -/
def message? (text : String) : List String → Option String
  | [part, ")"] => messagePart? text part
  | part :: "<>" :: rest => do
    let own ← messagePart? text part
    let others ← message? text rest
    return own ++ others
  | _ => none

/-- What a case expression over texts answers: a constructor, or a message in the last
alternative. -/
def constructorOf? (text : String) : List String → Option (Except String String)
  | own :: "->" :: "Right" :: constructor :: rest => do
    let value ← unquote? own
    if value = text then return .ok constructor else constructorOf? text rest
  | own :: "->" :: "Left" :: "(" :: message =>
    if own = "other" then (message? text message).map .error else none
  | _ => none

def toUrlPiece? (name : String) (declarations : List (List String)) (constructor : String) :
    Option String := do
  let method ← behind? ["instance", "ToHttpApiData", name, "where"] declarations
  match method with
  | "toUrlPiece" :: "value" :: "=" :: "case" :: "value" :: "of" :: alternatives =>
    textOf? constructor alternatives
  | _ => none

/-- The constructor that a type reads a text as, or the message it is rejected with. -/
def parseUrlPiece? (name : String) (declarations : List (List String)) (text : String) :
    Option (Except String String) := do
  let method ← behind? ["instance", "FromHttpApiData", name, "where"] declarations
  match method with
  | "parseUrlPiece" :: "text" :: "=" :: "case" :: "text" :: "of" :: alternatives =>
    constructorOf? text alternatives
  | _ => none

/-- A constructor is written as a text that is read as the constructor again. -/
def ComesBack (name : String) (declarations : List (List String)) (constructor : String) : Prop :=
  ∃ text, toUrlPiece? name declarations constructor = some text ∧
    parseUrlPiece? name declarations text = some (.ok constructor)

/-- The values of an enumeration travel as texts: of constructors with one value only the first
comes back, and nothing else is lost. -/
structure TravelsAsText (name title : String) (values : List String)
    (declarations : List (List String)) (constructors : List String) : Prop where
  once : constructors.Nodup
  /-- The names in patterns are those of constructors, so each matches nothing but itself. -/
  capitals : ∀ constructor ∈ constructors, IsConstructorName constructor
  /-- Each constructor is written as its own value. -/
  written : List.Forall₂ (fun constructor value =>
    toUrlPiece? name declarations constructor = some value) constructors values
  /-- A value is read as a constructor that is written as this value. -/
  accepted : ∀ value ∈ values, ∃ constructor ∈ constructors,
    parseUrlPiece? name declarations value = some (.ok constructor) ∧
      toUrlPiece? name declarations constructor = some value
  rejected : ∀ text, text ∉ values → parseUrlPiece? name declarations text =
    some (.error ("unknown " ++ title ++ ": " ++ text))
  /-- A constructor comes back exactly if its value was not listed before. -/
  first : ∀ front value back, values = front ++ value :: back →
    ∀ constructor, constructors[front.length]? = some constructor →
      (ComesBack name declarations constructor ↔ value ∉ front)
  /-- All constructors come back exactly if no value is listed twice. -/
  all : (∀ constructor ∈ constructors, ComesBack name declarations constructor) ↔ values.Nodup
  /-- In JSON the same texts are written and read. -/
  json : behind? ["instance", "ToJSON", name, "where"] declarations =
      some ["toJSON", "=", "Aeson.String", ".", "toUrlPiece"] ∧
    behind? ["instance", "FromJSON", name, "where"] declarations =
      some ["parseJSON", "=", "Aeson.withText", literal title, "(", "either", "(", "fail", ".",
        "show", ")", "pure", ".", "parseUrlPiece", ")"]

/-! ## Tables of constructors and values -/

section Table

/-- The first constructor with a value, or a message. -/
def readAs (title : String) (table : List (String × String)) (text : String) :
    Except String String :=
  match table.find? (·.2 == text) with
  | some entry => .ok entry.1
  | none => .error ("unknown " ++ title ++ ": " ++ text)

theorem textOf?_shownCases (table : List (String × String)) (constructor : String) :
    textOf? constructor (Declaration.shownCases table) = table.lookup constructor := by
  induction table with
  | nil => rfl
  | cons entry table ih =>
    obtain ⟨own, value⟩ := entry
    rw [Declaration.shownCases] at ih ⊢
    simp only [List.flatMap_cons, List.cons_append, List.nil_append, textOf?, ih,
      List.lookup_cons, unquote?_literal]
    split
    · rename_i heq
      simp [heq]
    · rename_i hne
      rw [beq_eq_false_iff_ne.2 (Ne.symm hne)]

/-- A literal is no name for the text. -/
theorem messagePart?_eq_some {text part value : String} (h : unquote? part = some value) :
    messagePart? text part = some value := by
  rw [messagePart?, if_neg, h]
  rintro rfl
  have hother : unquote? "other" = none := by decide
  simp [hother] at h

theorem message?_rejection (title text : String) :
    message? text ["\"unknown \"", "<>", literal title, "<>", "\": \"", "<>", "other", ")"] =
      some ("unknown " ++ title ++ ": " ++ text) := by
  have hlead := @messagePart?_eq_some text "\"unknown \"" "unknown " (by decide)
  have htitle := @messagePart?_eq_some text _ _ (unquote?_literal title)
  have hcolon := @messagePart?_eq_some text "\": \"" ": " (by decide)
  have hother : messagePart? text "other" = some text := if_pos rfl
  simp [message?, hlead, htitle, hcolon, hother, String.append_assoc]

theorem constructorOf?_readCases (title : String) (table : List (String × String))
    (text : String) :
    constructorOf? text (Declaration.readCases table ++ Declaration.rejection title) =
      some (readAs title table text) := by
  induction table with
  | nil => simp [Declaration.readCases, Declaration.rejection, constructorOf?, message?_rejection,
      readAs]
  | cons entry table ih =>
    obtain ⟨constructor, value⟩ := entry
    rw [Declaration.readCases] at ih ⊢
    simp only [List.flatMap_cons, List.cons_append, List.nil_append, constructorOf?, ih,
      unquote?_literal, Option.bind_eq_bind, Option.bind_some]
    by_cases heq : value = text <;> simp [readAs, heq]

variable {front back : List (String × String)} {constructor value : String}

/-- A value is read as a constructor exactly if no entry before that of the constructor has the
value. -/
theorem readAs_eq_ok_iff {title : String}
    (honce : ((front ++ (constructor, value) :: back).map Prod.fst).Nodup) :
    readAs title (front ++ (constructor, value) :: back) value = .ok constructor ↔
      value ∉ front.map Prod.snd := by
  rw [List.map_append, List.map_cons, List.nodup_middle, List.nodup_cons, List.mem_append,
    not_or] at honce
  rw [readAs, List.find?_append, List.find?_cons_of_pos (by simp)]
  cases hfind : front.find? (·.2 == value) with
  | none =>
    have hnone := List.find?_eq_none.1 hfind
    refine ⟨fun _ hmem => ?_, fun _ => rfl⟩
    obtain ⟨entry, hentry, heq⟩ := List.mem_map.1 hmem
    exact hnone entry hentry (beq_iff_eq.2 heq)
  | some entry =>
    have hvalue : entry.2 = value := by simpa using List.find?_some hfind
    have hmem := List.mem_of_find?_eq_some hfind
    refine ⟨fun heq => ?_, fun hnew => absurd (List.mem_map.2 ⟨entry, hmem, hvalue⟩) hnew⟩
    -- The entry in front would have the constructor of the other one.
    exact absurd (List.mem_map.2 ⟨entry, hmem, Except.ok.inj heq⟩) honce.1.1

/-- What a table answers for texts. -/
structure ReadsTable (name title : String) (table : List (String × String))
    (declarations : List (List String)) : Prop where
  once : (table.map Prod.fst).Nodup
  shown : ∀ constructor, toUrlPiece? name declarations constructor = table.lookup constructor
  read : ∀ text, parseUrlPiece? name declarations text = some (readAs title table text)

namespace ReadsTable

variable {name title : String} {table : List (String × String)}
  {declarations : List (List String)} (h : ReadsTable name title table declarations)
include h

theorem shown_of_mem {entry : String × String} (hentry : entry ∈ table) :
    toUrlPiece? name declarations entry.1 = some entry.2 :=
  (h.shown entry.1).trans (lookup_of_mem h.once hentry)

theorem comesBack_iff {entry : String × String} (hentry : entry ∈ table) :
    ComesBack name declarations entry.1 ↔ readAs title table entry.2 = .ok entry.1 := by
  simp only [ComesBack, h.shown_of_mem hentry, h.read, Option.some.injEq, exists_eq_left']

theorem all_comeBack_iff :
    (∀ constructor ∈ table.map Prod.fst, ComesBack name declarations constructor) ↔
      (table.map Prod.snd).Nodup := by
  rw [List.forall_mem_map]
  constructor
  · intro hall
    have hread : (table.map Prod.snd).map (readAs title table) =
        (table.map Prod.fst).map Except.ok := by
      rw [List.map_map, List.map_map]
      exact List.map_congr_left fun entry hentry => (h.comesBack_iff hentry).1 (hall entry hentry)
    have honce := h.once.map (f := (Except.ok : String → Except String String))
      fun _ _ => Except.ok.inj
    exact List.Nodup.of_map _ (hread ▸ honce)
  · intro hvalues entry hentry
    rw [h.comesBack_iff hentry]
    obtain ⟨front, back, rfl⟩ := List.append_of_mem hentry
    refine (readAs_eq_ok_iff h.once).2 fun hmem => ?_
    rw [List.map_append, List.map_cons, List.nodup_middle, List.nodup_cons] at hvalues
    exact hvalues.1 (List.mem_append_left _ hmem)

theorem accepted {value : String} (hvalue : value ∈ table.map Prod.snd) :
    ∃ constructor ∈ table.map Prod.fst,
      parseUrlPiece? name declarations value = some (.ok constructor) ∧
        toUrlPiece? name declarations constructor = some value := by
  have hsome : (table.find? (·.2 == value)).isSome = true := by
    obtain ⟨entry, hentry, heq⟩ := List.mem_map.1 hvalue
    exact List.find?_isSome.2 ⟨entry, hentry, beq_iff_eq.2 heq⟩
  obtain ⟨entry, hfind⟩ := Option.isSome_iff_exists.1 hsome
  have hentry := List.mem_of_find?_eq_some hfind
  have heq : entry.2 = value := by simpa using List.find?_some hfind
  refine ⟨entry.1, List.mem_map_of_mem hentry, ?_, heq ▸ h.shown_of_mem hentry⟩
  rw [h.read, readAs, hfind]

theorem rejected {text : String} (htext : text ∉ table.map Prod.snd) :
    parseUrlPiece? name declarations text =
      some (.error ("unknown " ++ title ++ ": " ++ text)) := by
  have hnone : table.find? (·.2 == text) = none :=
    List.find?_eq_none.2 fun entry hentry heq =>
      htext (List.mem_map.2 ⟨entry, hentry, beq_iff_eq.1 heq⟩)
  rw [h.read, readAs, hnone]

theorem first {front back : List String} {value constructor : String}
    (hvalues : table.map Prod.snd = front ++ value :: back)
    (hconstructor : (table.map Prod.fst)[front.length]? = some constructor) :
    ComesBack name declarations constructor ↔ value ∉ front := by
  obtain ⟨before, rest, rfl, rfl, hrest⟩ := List.map_eq_append_iff.1 hvalues
  obtain ⟨entry, after, rfl, rfl, -⟩ := List.map_eq_cons_iff.1 hrest
  obtain rfl : entry.1 = constructor := by simpa using hconstructor
  rw [h.comesBack_iff (List.mem_append_right _ List.mem_cons_self)]
  exact readAs_eq_ok_iff h.once

end ReadsTable

end Table

/-! ## Instances of a module -/

namespace TypesModule

variable {context : RenderContext} {types : TypesModule} {read : List (List String)}
  (h : types.IsReadFrom context read) {declaration : Declaration}
  (hmem : declaration ∈ types.declarations) {title : String} {table : List (String × String)}
  (hbody : declaration.body = .enum title table)
include h hmem hbody

/-- The instances of an enumeration are found by their class and its name. -/
theorem IsReadFrom.behind?_enumInstance {className : String} {body : List String}
    (hinstance : (Declaration.enumInstances declaration.name title table).filter
      (["instance", className, declaration.name, "where"].isPrefixOf ·) =
        [["instance", className, declaration.name, "where"] ++ body]) :
    behind? ["instance", className, declaration.name, "where"] read = some body :=
  h.behind?_instance hmem (fun _ _ hread => hread.enum _ _ hbody) hinstance

theorem IsReadFrom.readsTable : ReadsTable declaration.name title table read where
  once := by
    have hown := (List.nodup_flatMap.1 h.isFor.nodup_constructors).1 declaration hmem
    simpa [Declaration.constructors, hbody] using hown
  shown := by
    intro constructor
    have hbehind : behind? ["instance", "ToHttpApiData", declaration.name, "where"] read =
        some ("toUrlPiece" :: "value" :: "=" :: "case" :: "value" :: "of" ::
          Declaration.shownCases table) :=
      h.behind?_enumInstance hmem hbody (by simp [Declaration.enumInstances, List.isPrefixOf])
    rw [toUrlPiece?, hbehind]
    exact textOf?_shownCases table constructor
  read := by
    intro text
    have hbehind : behind? ["instance", "FromHttpApiData", declaration.name, "where"] read =
        some ("parseUrlPiece" :: "text" :: "=" :: "case" :: "text" :: "of" ::
          (Declaration.readCases table ++ Declaration.rejection title)) :=
      h.behind?_enumInstance hmem hbody (by simp [Declaration.enumInstances, List.isPrefixOf])
    rw [parseUrlPiece?, hbehind]
    exact constructorOf?_readCases title table text

/-- The values of an enumeration travel by the constructors that it is declared with. -/
theorem IsReadFrom.travelsAsText :
    TravelsAsText declaration.name title (table.map Prod.snd) read (table.map Prod.fst) := by
  have htable := h.readsTable hmem hbody
  exact {
    once := htable.once
    capitals := by
      have hnames := (h.wellNamed declaration hmem).isConstructorName
      simpa [Declaration.constructors, hbody] using hnames
    written := by
      rw [List.forall₂_map_left_iff, List.forall₂_map_right_iff, List.forall₂_same]
      exact fun entry hentry => htable.shown_of_mem hentry
    accepted := fun value hvalue => htable.accepted hvalue
    rejected := fun text htext => htable.rejected htext
    first := fun front value back hvalues constructor hconstructor =>
      htable.first hvalues hconstructor
    all := htable.all_comeBack_iff
    json := ⟨h.behind?_enumInstance hmem hbody
        (by simp [Declaration.enumInstances, List.isPrefixOf]),
      h.behind?_enumInstance hmem hbody (by simp [Declaration.enumInstances, List.isPrefixOf])⟩ }

end TypesModule

/-! ## Enumerations of a lowered interface -/

open Lowering (run Notice Lists ListsOwn)

/-- A declaration of an enumeration with values has a constructor for each. -/
theorem DeclaresType.exists_table {context : RenderContext} {model : Model}
    {declaration : Declaration} (h : DeclaresType context model declaration) {values : List String}
    (hshape : model.shape = .enum values) (hne : values ≠ []) :
    ∃ table, declaration.body = .enum model.rawName table ∧ table.map Prod.snd = values := by
  have hbody := h.body
  rw [hshape] at hbody
  generalize declaration.body = body at hbody ⊢
  cases hbody with
  | noValues => exact absurd rfl hne
  | enum _ => exact ⟨_, rfl, rfl⟩

/-- What is read of an enumeration: a type of constructors without fields, by which the values
travel. -/
def ReadsEnum (model : Model) (values : List String) (declarations : List (List String)) : Prop :=
  ∃ types type constructors, typesIn? declarations = some types ∧ type ∈ types ∧
    type.name = model.name ∧
    type.constructors = constructors.map (fun constructor => ⟨constructor, [], []⟩) ∧
    TravelsAsText model.name model.rawName values declarations constructors

theorem TypesModule.IsReadFrom.readsEnum {context : RenderContext} {types : TypesModule}
    {read : List (List String)} (h : types.IsReadFrom context read) {model : Model}
    (hmodel : model ∈ declaredTypes context.api) {values : List String}
    (hshape : model.shape = .enum values) (hne : values ≠ []) : ReadsEnum model values read := by
  obtain ⟨declaration, hmem, hdeclares⟩ :=
    Outcomes.exists_of_mem_of_forall₂ h.isFor.declares.flip hmodel
  obtain ⟨table, hbody, rfl⟩ := hdeclares.exists_table hshape hne
  have htravels := h.travelsAsText hmem hbody
  rw [hdeclares.name] at htravels
  refine ⟨_, declaration.readType, table.map Prod.fst, h.typesIn?_eq, List.mem_map_of_mem hmem,
    hdeclares.name, ?_, htravels⟩
  simp [Declaration.readType, hbody, Function.comp_def]

theorem lists_of_mem_declaredTypes {document : Document} {api : Api}
    (h : Lowering.ListedApi document api) {model : Model} (hmodel : model ∈ declaredTypes api)
    {values : List String} (hshape : model.shape = .enum values) : Lists document values := by
  obtain hmodel | hinline := List.mem_append.1 hmodel
  · exact h.models model hmodel values hshape
  · obtain ⟨inline, hmem, rfl⟩ := List.mem_map.1 hinline
    obtain rfl : inline.values = values := Shape.enum.inj hshape
    exact h.inlines inline hmem

/-- Where there is an enumeration, the template makes a file with its type. -/
theorem exists_isReadFrom_of_mem {document : Document} {settings : TargetSettings} {api : Api}
    {notices : List Notice}
    (h : run ⟨document, settings.apply target⟩ = some ⟨.ok api, notices⟩)
    (hkeys : document.tree.hasDistinctKeys = true) {model : Model}
    (hmodel : model ∈ declaredTypes api) :
    ∃ (types : TypesModule) (text : String),
      typesTemplate.render ⟨api, settings.apply target⟩ .api = .ok (.file text types.notes) ∧
        types.IsReadFrom ⟨api, settings.apply target⟩ (declarationsOf text) := by
  obtain ⟨hnone, -⟩ | hsome := elided_or_isReadFrom h hkeys
  · rw [← map_name_declaredTypes, List.map_eq_nil_iff] at hnone
    rw [hnone] at hmodel
    exact absurd hmodel List.not_mem_nil
  · exact hsome

/-- Whatever document an interface was lowered from, each of its enumerations, named or inside a
type, has the values that a schema of the document lists, its own named schema if it has one, and
the generated instances send them back and forth: a listed value is read as a constructor that is
written as this value, any other text is rejected, and all constructors come back exactly if the
document lists no value twice. -/
theorem enums_travel_as_text {tree : Json} {document : Document} {settings : TargetSettings}
    {api : Api} {notices : List Notice} (hdocument : Document.ofTree tree = .ok document)
    (hkeys : tree.hasDistinctKeys = true)
    (h : run ⟨document, settings.apply target⟩ = some ⟨.ok api, notices⟩) {model : Model}
    (hmodel : model ∈ declaredTypes api) {values : List String}
    (hshape : model.shape = .enum values) :
    Lists document values ∧
      (model ∈ api.models.models → ListsOwn ⟨document, settings.apply target⟩ model values) ∧
      ∃ text notes,
        typesTemplate.render ⟨api, settings.apply target⟩ .api = .ok (.file text notes) ∧
          ReadsEnum model values (declarationsOf text) := by
  have hlisted := Lowering.listedApi_of_run_eq_ok (Document.pathsInTree_of_ofTree hdocument) h
  have hlists := lists_of_mem_declaredTypes hlisted hmodel hshape
  obtain rfl := Document.eq_of_ofTree hdocument
  obtain ⟨_, _, _, _, _, _, haccount⟩ := Lowering.account_of_run_eq_ok h hkeys
  obtain ⟨types, text, hrender, hread⟩ := exists_isReadFrom_of_mem h hkeys hmodel
  refine ⟨hlists, fun hnamed => haccount.listsOwn hnamed hshape, text, types.notes, hrender, ?_⟩
  exact hread.readsEnum hmodel hshape hlists.ne_nil

/-- Values that ask for one constructor, a value of marks only, and an enumeration inside a type
one of whose values is the name of another constructor. -/
theorem enums_travel_as_text_collisions :
    let tree : Json := .object [
      ("info", .object []),
      ("paths", .object []),
      ("definitions", .object [
        ("Pet", .object [("enum", .array [.string "a b", .string "a-b", .null, .string "\"\\"])]),
        ("Shop", .object [("properties", .object [
          ("kind", .object [("enum", .array [.string "PetAB", .string ""])])])])])]
    let settings : TargetSettings := {}
    ∃ document api notices, Document.ofTree tree = .ok document ∧
      tree.hasDistinctKeys = true ∧
      run ⟨document, settings.apply target⟩ = some ⟨.ok api, notices⟩ ∧
      (declaredTypes api).map (fun model => (model.name, model.shape)) =
        [("Pet", .enum ["a b", "a-b", "\"\\"]),
          ("Shop", .record [⟨"kind", "kind", .optional (.enum "ShopKind" ["PetAB", ""]), false,
            none⟩]),
          ("ShopKind", .enum ["PetAB", ""])] ∧
      ∀ model ∈ declaredTypes api, ∀ values, model.shape = .enum values →
        Lists document values ∧
          (model ∈ api.models.models → ListsOwn ⟨document, settings.apply target⟩ model values) ∧
          ∃ text notes,
            typesTemplate.render ⟨api, settings.apply target⟩ .api = .ok (.file text notes) ∧
              ReadsEnum model values (declarationsOf text) := by
  intro tree settings
  have hview : ((Document.ofTree tree).toOption.bind fun document =>
      (run ⟨document, settings.apply target⟩).bind fun result => result.outcome.toOption.map
        fun api => (declaredTypes api).map fun model => (model.name, model.shape)) =
      some [("Pet", .enum ["a b", "a-b", "\"\\"]),
        ("Shop", .record [⟨"kind", "kind", .optional (.enum "ShopKind" ["PetAB", ""]), false,
          none⟩]),
        ("ShopKind", .enum ["PetAB", ""])] := by
    decide +kernel
  have hkeys : tree.hasDistinctKeys = true := by decide +kernel
  obtain ⟨document, api, notices, hdocument, hrun, hmodels⟩ := Lowering.exists_run_of_view hview
  exact ⟨document, api, notices, hdocument, hkeys, hrun, hmodels, fun model hmodel values hshape =>
    enums_travel_as_text hdocument hkeys hrun hmodel hshape⟩

/-- A value that is listed twice gets two constructors. Both are written as the value, and it is
read as the first: the second never comes back. -/
theorem second_constructor_never_read :
    let tree : Json := .object [
      ("info", .object [("title", .string "Shop")]),
      ("paths", .object []),
      ("components", .object [("schemas", .object [
        ("Pet", .object [("enum", .array [.string "a", .string "a"])])])])]
    let settings : TargetSettings := {}
    ∃ document api notices, Document.ofTree tree = .ok document ∧
      tree.hasDistinctKeys = true ∧
      run ⟨document, settings.apply target⟩ = some ⟨.ok api, notices⟩ ∧
      ∃ text notes types type first second,
        typesTemplate.render ⟨api, settings.apply target⟩ .api = .ok (.file text notes) ∧
        typesIn? (declarationsOf text) = some types ∧ type ∈ types ∧ type.name = "Pet" ∧
        type.constructors = [⟨first, [], []⟩, ⟨second, [], []⟩] ∧
        toUrlPiece? "Pet" (declarationsOf text) second = some "a" ∧
        parseUrlPiece? "Pet" (declarationsOf text) "a" = some (.ok first) ∧
        ¬ ComesBack "Pet" (declarationsOf text) second := by
  intro tree settings
  have hview : ((Document.ofTree tree).toOption.bind fun document =>
      (run ⟨document, settings.apply target⟩).bind fun result => result.outcome.toOption.map
        fun api => (declaredTypes api).map fun model => (model.name, model.shape)) =
      some [("Pet", .enum ["a", "a"])] := by
    decide +kernel
  have hkeys : tree.hasDistinctKeys = true := by decide +kernel
  obtain ⟨document, api, notices, hdocument, hrun, hmodels⟩ := Lowering.exists_run_of_view hview
  obtain ⟨model, rest, hdeclared, hmodel, -⟩ := List.map_eq_cons_iff.1 hmodels
  obtain ⟨hname, hshape⟩ := Prod.mk.inj hmodel
  have hmem : model ∈ declaredTypes api := hdeclared ▸ List.mem_cons_self
  obtain rfl := Document.eq_of_ofTree hdocument
  obtain ⟨types, text, hrender, hread⟩ := exists_isReadFrom_of_mem hrun hkeys hmem
  obtain ⟨read, type, constructors, htypes, htype, htypeName, hconstructors, htravels⟩ :=
    hread.readsEnum hmem hshape (by simp)
  rw [hname] at htypeName htravels
  obtain ⟨first, second, rfl⟩ : ∃ first second, constructors = [first, second] :=
    List.length_eq_two.1 htravels.written.length_eq
  have hwritten := htravels.written
  simp only [List.forall₂_cons, List.forall₂_nil_left_iff, and_true] at hwritten
  have hback : ComesBack "Pet" (declarationsOf text) first :=
    (htravels.first [] "a" ["a"] rfl first rfl).2 List.not_mem_nil
  obtain ⟨own, hown, hparsed⟩ := hback
  obtain rfl : own = "a" := Option.some.inj (hown.symm.trans hwritten.1)
  have hlost : ¬ ComesBack "Pet" (declarationsOf text) second := fun hback =>
    (htravels.first ["a"] "a" [] rfl second rfl).1 hback List.mem_cons_self
  exact ⟨_, api, notices, hdocument, hkeys, hrun, text, types.notes, read, type, first, second,
    hrender, htypes, htype, htypeName, hconstructors, hwritten.2, hparsed, hlost⟩

end ServantGen.Haskell
