import ServantGen.Proofs.Haskell.TypeReaders
import ServantGen.Proofs.Ledger.Api

/-!
# Labels of fields

A record is read and written as JSON by way of its label function: an instance names options, the
options name the function, and the function sends the name of a field to the property of the field.
The names of the module of types are pairwise different, so each look-up on this way finds what was
written for the record and nothing else.
-/

namespace ServantGen.Haskell

/-! ## Reading labels -/

/-- What stands behind a beginning that one declaration has and no other. -/
def behind? (lead : List String) (declarations : List (List String)) : Option (List String) :=
  match declarations.filter (lead.isPrefixOf ·) with
  | [declaration] => some (declaration.drop lead.length)
  | _ => none

/-- The options that the instance of a class for JSON uses. -/
def optionsOf? : List String → Option String
  | ["parseJSON", "=", "Aeson.genericParseJSON", options]
  | ["toJSON", "=", "Aeson.genericToJSON", options] => some options
  | _ => none

/-- The label function that options set. -/
def labelFunction? : List String → Option String
  | "Aeson.defaultOptions" :: "\x7b" :: "Aeson.fieldLabelModifier" :: "=" :: label :: _ =>
    some label
  | _ => none

/-- The alternatives from literals to literals, in front of one that leaves other texts alone. -/
def labelTable? : List String → Option (List (String × String))
  | left :: "->" :: right :: rest =>
    if rest = [] then if left = "other" ∧ right = "other" then some [] else none
    else do
      let left ← unquote? left
      let right ← unquote? right
      let others ← labelTable? rest
      return (left, right) :: others
  | _ => none

/-- The labels that the instance of a class has for a record, by way of its options. -/
def labelsOf? (className name : String) (declarations : List (List String)) :
    Option (List (String × String)) := do
  let body ← behind? ["instance", className, name, "where"] declarations
  let options ← optionsOf? body
  let settings ← behind? [options, "="] declarations
  let label ← labelFunction? settings
  let function ← behind? [label, "label", "="] declarations
  match function with
  | "case" :: "label" :: "of" :: alternatives => labelTable? alternatives
  | _ => none

/-- The label of a field: the first alternative that matches counts, and what none matches stays. -/
def labelled (table : List (String × String)) (name : String) : String :=
  (table.lookup name).getD name

/-- The classes of which a record has instances by its options. -/
def jsonClasses : List String :=
  ["FromJSON", "ToJSON"]

section Tables

theorem behind?_eq_some {lead body : List String} {declarations : List (List String)}
    (h : declarations.filter (lead.isPrefixOf ·) = [lead ++ body]) :
    behind? lead declarations = some body := by
  rw [behind?, h]
  simp

theorem labelTable?_eq_some (pairs : List (String × String)) :
    labelTable? ((pairs.flatMap fun pair => [literal pair.1, "->", literal pair.2]) ++
      ["other", "->", "other"]) = some pairs := by
  induction pairs with
  | nil => rfl
  | cons pair pairs ih =>
    simp only [List.flatMap_cons, List.cons_append, List.nil_append, labelTable?]
    rw [if_neg (by simp), ih]
    simp

/-- In a table of different names each is found with what it stands for. -/
theorem lookup_of_mem {table : List (String × String)} (honce : (table.map Prod.fst).Nodup)
    {name text : String} (hmem : (name, text) ∈ table) : table.lookup name = some text := by
  obtain ⟨front, back, rfl⟩ := List.append_of_mem hmem
  rw [List.map_append, List.map_cons, List.nodup_middle, List.nodup_cons, List.mem_append,
    not_or] at honce
  refine List.lookup_eq_some_iff.2 ⟨front, back, rfl, fun entry hentry => ?_⟩
  rw [bne_iff_ne]
  exact fun heq => honce.1.1 (List.mem_map.2 ⟨entry, hentry, heq.symm⟩)

/-- In a table of different names each gets its own label. -/
theorem labelled_of_mem {table : List (String × String)} (honce : (table.map Prod.fst).Nodup)
    {name label : String} (hmem : (name, label) ∈ table) : labelled table name = label := by
  rw [labelled, lookup_of_mem honce hmem, Option.getD_some]

end Tables

/-! ## Names that are apart -/

theorem notMem_headWords_of_isSpelled {name : String} (h : NameKind.value.IsSpelled name) :
    name ∉ headWords := by
  have hkeyword := notMem_keywords_of_isSpelled h
  have hbracket : name ≠ "\x7b" := h.1.word.ne (c := '\x7b') (by decide) (by decide)
  have hmodule : name ≠ "module" := fun heq => hkeyword (heq ▸ by decide)
  have himport : name ≠ "import" := fun heq => hkeyword (heq ▸ by decide)
  simp [headWords, hbracket, hmodule, himport]

namespace TypesModule

section IsFor

variable {context : RenderContext} {types : TypesModule} (h : types.IsFor context)
include h

theorem IsFor.nodup_declarations : types.declarations.Nodup :=
  List.Nodup.of_map Declaration.name (h.map_name ▸ h.nodup_typeNames)

/-- Fields and functions of all types have different names. -/
theorem IsFor.nodup_values : (types.declarations.flatMap fun declaration =>
    declaration.selectorNames ++ declaration.functionNames).Nodup := by
  have hvalues := h.values
  rw [names, namesOf_flatMap] at hvalues
  simpa only [Declaration.namesOf_value] using hvalues

/-- No function has the name of another declaration's. -/
theorem IsFor.notMem_functionNames {declaration other : Declaration}
    (hmem : declaration ∈ types.declarations) (hother : other ∈ types.declarations)
    (hne : other ≠ declaration) {name : String} (hname : name ∈ declaration.functionNames) :
    name ∉ other.functionNames := by
  intro hown
  have hapart := (List.nodup_flatMap.1 h.nodup_values).2
  have hsymm : Std.Symm (Function.onFun List.Disjoint fun declaration : Declaration =>
      declaration.selectorNames ++ declaration.functionNames) :=
    ⟨fun _ _ hapart _ hname hown => hapart hown hname⟩
  exact hapart.forall hother hmem hne (List.mem_append_right _ hown) (List.mem_append_right _ hname)

theorem IsFor.name_ne {declaration other : Declaration} (hmem : declaration ∈ types.declarations)
    (hother : other ∈ types.declarations) (hne : other ≠ declaration) :
    other.name ≠ declaration.name := by
  have hnames : (types.declarations.map Declaration.name).Nodup := h.map_name ▸ h.nodup_typeNames
  exact fun heq => hne (List.inj_on_of_nodup_map hnames hother hmem heq)

end IsFor

section IsReadFrom

variable {context : RenderContext} {types : TypesModule} {read : List (List String)}
  (h : types.IsReadFrom context read)
include h

/-- What is found in the part of one declaration only is found once. -/
theorem IsReadFrom.filter_eq_of_mem {keeps : List String → Bool}
    (hhead : ∀ own ∈ types.headDeclarations, keeps own = false) {declaration : Declaration}
    (hmem : declaration ∈ types.declarations) {found : Declaration → List (List String)}
    (hfound : ∀ other ∈ types.declarations, ∀ part instances, other.IsReadAs part instances →
      part.filter keeps = found other)
    (hothers : ∀ other ∈ types.declarations, other ≠ declaration → found other = []) :
    read.filter keeps = found declaration := by
  rw [h.filter_eq hhead hfound]
  exact flatMap_eq_of_nodup h.isFor.nodup_declarations hmem hothers

/-- A function is found by its name and what stands behind it. -/
theorem IsReadFrom.behind?_function {declaration : Declaration}
    (hmem : declaration ∈ types.declarations) {name : String}
    (hname : name ∈ declaration.functionNames) {rest body : List String}
    (hbody : declaration.functions.filter ((name :: rest).isPrefixOf ·) = [name :: rest ++ body]) :
    behind? (name :: rest) read = some body := by
  have hspelled := (h.wellNamed declaration hmem).isSpelled_functionNames name hname
  have hkeyword := notMem_keywords_of_isSpelled hspelled
  refine behind?_eq_some ((h.filter_eq_of_mem (fun own hown => ?_) hmem
    (fun other _ part instances hpart => hpart.filter_isPrefixOf hkeyword rest) ?_).trans hbody)
  · obtain ⟨word, hword, hhead⟩ := IsReadFrom.head?_of_mem_headDeclarations own hown
    obtain ⟨list, rfl⟩ := List.head?_eq_some_iff.1 hhead
    have hne : name ≠ word := fun heq => notMem_headWords_of_isSpelled hspelled (heq ▸ hword)
    simp [List.isPrefixOf, hne]
  · intro other hother hne
    rw [List.filter_eq_nil_iff]
    intro own hown hprefix
    obtain ⟨first, hfirst, hhead⟩ := Declaration.head?_of_mem_functions own hown
    obtain ⟨list, rfl⟩ := List.head?_eq_some_iff.1 hhead
    obtain ⟨rfl, -⟩ : name = first ∧ rest.isPrefixOf list = true := by
      simpa [List.isPrefixOf] using hprefix
    exact h.isFor.notMem_functionNames hmem hother hne hname hfirst

/-- An instance of a type whose instances are known is found by its class and the type. -/
theorem IsReadFrom.behind?_instance {declaration : Declaration}
    (hmem : declaration ∈ types.declarations) {known : List (List String)}
    (hknown : ∀ part instances, declaration.IsReadAs part instances → instances = known)
    {className : String} {body : List String}
    (hinstance : known.filter (["instance", className, declaration.name, "where"].isPrefixOf ·) =
      [["instance", className, declaration.name, "where"] ++ body]) :
    behind? ["instance", className, declaration.name, "where"] read = some body := by
  have hfound := @filter_eq_of_mem _ _ _ h
    (["instance", className, declaration.name, "where"].isPrefixOf ·) ?_ declaration hmem
    (fun other => if other = declaration then
      [["instance", className, declaration.name, "where"] ++ body] else []) ?_ (by simp_all)
  · rw [if_pos rfl] at hfound
    exact behind?_eq_some hfound
  · intro own hown
    obtain ⟨word, hword, hhead⟩ := IsReadFrom.head?_of_mem_headDeclarations own hown
    obtain ⟨list, rfl⟩ := List.head?_eq_some_iff.1 hhead
    have hne : "instance" ≠ word := fun heq => absurd (heq ▸ hword) (by decide)
    simp [List.isPrefixOf, hne]
  · intro other hother part instances hread
    rw [hread.filter_instances (h.wellNamed other hother)]
    split
    · rename_i heq
      subst heq
      rw [hknown part instances hread, hinstance]
    · rename_i hne
      rw [List.filter_eq_nil_iff]
      intro own hown hprefix
      obtain ⟨ownClass, ownBody, rfl, -⟩ := hread.annotated own hown
      have hname := h.isFor.name_ne hmem hother hne
      simp_all [List.isPrefixOf]

/-- Either instance of a record has the properties of its fields as labels. -/
theorem IsReadFrom.labelsOf?_eq {declaration : Declaration}
    (hmem : declaration ∈ types.declarations) {selectors : List Selector} {options label : String}
    (hbody : declaration.body = .record selectors options label) {className : String}
    (hclass : className ∈ jsonClasses) :
    labelsOf? className declaration.name read =
      some (selectors.map fun selector => (selector.name, selector.property)) := by
  have hknown : ∀ part instances, declaration.IsReadAs part instances →
      instances = Declaration.recordInstances declaration.name options :=
    fun _ _ hread => hread.record _ _ _ hbody
  obtain ⟨body, hinstance, hoptions⟩ : ∃ body,
      behind? ["instance", className, declaration.name, "where"] read = some body ∧
        optionsOf? body = some options := by
    obtain rfl | rfl : className = "FromJSON" ∨ className = "ToJSON" := by
      simpa [jsonClasses] using hclass
    · refine ⟨["parseJSON", "=", "Aeson.genericParseJSON", options], ?_, rfl⟩
      exact h.behind?_instance hmem hknown (by simp [Declaration.recordInstances, List.isPrefixOf])
    · refine ⟨["toJSON", "=", "Aeson.genericToJSON", options], ?_, rfl⟩
      exact h.behind?_instance hmem hknown (by simp [Declaration.recordInstances, List.isPrefixOf])
  have hsettings : behind? [options, "="] read = some ["Aeson.defaultOptions", "\x7b",
      "Aeson.fieldLabelModifier", "=", label, ",", "Aeson.omitNothingFields", "=", "True",
      "\x7d"] :=
    h.behind?_function hmem (by simp [Declaration.functionNames, hbody])
      (by simp [Declaration.functions, hbody, List.isPrefixOf])
  have hfunction : behind? [label, "label", "="] read = some ("case" :: "label" :: "of" ::
      ((selectors.map fun selector => (selector.name, selector.property)).flatMap
        fun pair => [literal pair.1, "->", literal pair.2]) ++ ["other", "->", "other"]) :=
    h.behind?_function hmem (by simp [Declaration.functionNames, hbody])
      (by simp [Declaration.functions, hbody, List.isPrefixOf, List.flatMap_map])
  have htable := labelTable?_eq_some
    (selectors.map fun selector => (selector.name, selector.property))
  simp only [List.cons_append] at hfunction
  simp only [labelsOf?, hinstance, hoptions, hsettings, labelFunction?, hfunction,
    Option.bind_eq_bind, Option.bind_some, htable]

end IsReadFrom

end TypesModule

/-! ## Names of a lowered interface -/

theorem Declaration.map_name_constructors (declaration : Declaration) :
    declaration.readType.constructors.map ReadConstructor.name = declaration.constructors := by
  obtain ⟨name, description, body⟩ := declaration
  cases body <;> simp [readType, constructors, Function.comp_def]

theorem Declaration.WellNamed.isConstructorName {declaration : Declaration}
    (h : declaration.WellNamed) : ∀ name ∈ declaration.constructors, IsConstructorName name := by
  obtain ⟨name, description, body⟩ := declaration
  have hname := h.name
  have hnames := h.names
  cases body with
  | enum title constructors =>
    refine List.forall_mem_map.2 fun entry hentry => ?_
    exact hnames (.constructor, entry.1) (List.mem_map.2 ⟨entry, hentry, rfl⟩)
  | union constructors discriminator =>
    refine List.forall_mem_map.2 fun entry hentry => ?_
    exact hnames (.constructor, entry.1) (List.mem_map.2 ⟨entry, hentry, rfl⟩)
  | _ => simpa [constructors] using hname

/-- A record as it is read: its one constructor has a field for each of the model, whose label in
either instance is the property of that field. -/
structure ReadsRecord (model : Model) (read : List (List String)) (type : ReadType) : Prop where
  name : type.name = model.name
  fields : ∃ fields table, type.constructors = [⟨model.name, fields, []⟩] ∧
    (∀ className ∈ jsonClasses, labelsOf? className model.name read = some table) ∧
    List.Forall₂ (fun own field => own.2 = lexemes (typeText field.type) ∧
      labelled table own.1 = field.rawName) fields model.fields

def constructorNames (types : List ReadType) : List String :=
  types.flatMap fun type => type.constructors.map ReadConstructor.name

def fieldNames (types : List ReadType) : List String :=
  types.flatMap fun type => type.fields.map Prod.fst

/-- The names in what is read of a module of types are apart and spelled as the language asks for,
and the fields of records lead back to the properties of the document. -/
structure LeadsBack (context : RenderContext) (read : List (List String)) (types : List ReadType) :
    Prop where
  found : typesIn? read = some types
  /-- Each type is declared once and exported once. -/
  declared : types.map ReadType.name = typeNames context
  exported : exportsOf read = (typeNames context).map TypesModule.exportedItem
  once : (typeNames context).Nodup
  constructors : (constructorNames types).Nodup
  capitals : ∀ name ∈ constructorNames types, IsConstructorName name
  values : (fieldNames types ++ definedNames read).Nodup
  smallLetters : ∀ name ∈ fieldNames types ++ definedNames read, IsValueName name
  /-- Every record is read with its own labels. -/
  records : ∀ model ∈ context.api.models.models, model.fields ≠ [] →
    ∃ type ∈ types, ReadsRecord model read type
  /-- No two fields of a record have one property. -/
  apart : ∀ model ∈ context.api.models.models, (model.fields.map Field.rawName).Nodup

section LeadsBack

variable {context : RenderContext} {types : TypesModule} {read : List (List String)}

theorem fieldNames_readType (declarations : List Declaration) :
    fieldNames (declarations.map Declaration.readType) =
      declarations.flatMap Declaration.selectorNames := by
  rw [fieldNames, List.flatMap_map]
  rfl

theorem constructorNames_readType (declarations : List Declaration) :
    constructorNames (declarations.map Declaration.readType) =
      declarations.flatMap Declaration.constructors := by
  rw [constructorNames, List.flatMap_map]
  exact List.flatMap_congr fun declaration _ => declaration.map_name_constructors

variable (h : types.IsReadFrom context read)
include h

/-- A record of the interface is read with its own labels. -/
theorem TypesModule.IsReadFrom.readsRecord {model : Model}
    (hmodel : model ∈ context.api.models.models) (hfields : model.fields ≠ []) :
    ∃ declaration ∈ types.declarations, ReadsRecord model read declaration.readType := by
  obtain ⟨declaration, hmem, hdeclares⟩ := Outcomes.exists_of_mem_of_forall₂
    h.isFor.declares.flip (List.mem_append_left _ hmodel)
  have hbody := hdeclares.body
  have hname := hdeclares.name
  have hshape : model.shape = .record model.fields := by
    unfold Model.fields at hfields ⊢
    split at hfields
    · rename_i fields hshape
      rw [hshape]
    · exact absurd rfl hfields
  rw [hshape] at hbody
  obtain ⟨selectors, options, label, hrecord, hselectors⟩ : ∃ selectors options label,
      declaration.body = .record selectors options label ∧
        List.Forall₂ (fun field selector => selector.property = field.rawName ∧
          selector.type = field.type) model.fields selectors := by
    generalize declaration.body = body, model.fields = fields at hbody hfields
    cases hbody with
    | unit => exact absurd rfl hfields
    | record hne hselectors => exact ⟨_, _, _, rfl, hselectors⟩
  have hread : declaration.readType.constructors = [⟨declaration.name, selectors.map fun selector =>
      (selector.name, lexemes (typeText selector.type)), []⟩] := by
    simp [Declaration.readType, hrecord]
  have honce : ((selectors.map fun selector => (selector.name, selector.property)).map
      Prod.fst).Nodup := by
    have hvalues := (List.nodup_flatMap.1 h.isFor.nodup_values).1 declaration hmem
    have hnames := (List.nodup_append.1 hvalues).1
    simpa [Declaration.selectorNames, ReadType.fields, hread, Function.comp_def] using hnames
  refine ⟨declaration, hmem, hname, _, _, hname ▸ hread,
    fun className hclass => hname ▸ h.labelsOf?_eq hmem hrecord hclass, ?_⟩
  rw [List.forall₂_map_left_iff]
  refine ((List.forall₂_and_left selectors model.fields).2
    ⟨fun _ => id, hselectors.flip⟩).imp fun selector field hfield => ?_
  obtain ⟨hselector, hproperty, htype⟩ := hfield
  refine ⟨by rw [htype], hproperty ▸ labelled_of_mem honce ?_⟩
  exact List.mem_map.2 ⟨selector, hselector, rfl⟩

theorem TypesModule.IsReadFrom.leadsBack
    (hapart : ∀ model ∈ context.api.models.models, (model.fields.map Field.rawName).Nodup) :
    LeadsBack context read (types.declarations.map Declaration.readType) where
  found := h.typesIn?_eq
  declared := by
    rw [List.map_map, ← h.isFor.map_name]
    rfl
  exported := by
    rw [h.exportsOf_eq, ← h.isFor.map_name, List.map_map]
    rfl
  once := h.isFor.nodup_typeNames
  constructors := constructorNames_readType _ ▸ h.isFor.nodup_constructors
  capitals := by
    rw [constructorNames_readType, List.forall_mem_flatMap]
    exact fun declaration hmem => (h.wellNamed declaration hmem).isConstructorName
  values := by
    rw [fieldNames_readType, h.definedNames_eq]
    exact (List.flatMap_append_perm _ _ _).nodup_iff.2 h.isFor.nodup_values
  smallLetters := by
    rw [fieldNames_readType, h.definedNames_eq]
    intro name hname
    rw [(List.flatMap_append_perm _ _ _).mem_iff, List.mem_flatMap] at hname
    obtain ⟨declaration, hmem, hname⟩ := hname
    rw [← Declaration.namesOf_value, mem_namesOf] at hname
    exact ((h.wellNamed declaration hmem).names _ hname).1
  records := by
    intro model hmodel hfields
    obtain ⟨declaration, hmem, hreads⟩ := h.readsRecord hmodel hfields
    exact ⟨_, List.mem_map_of_mem hmem, hreads⟩
  apart := hapart

end LeadsBack

open Lowering (run Notice)

/-- Whatever document an interface was lowered from, and whatever was set for the target, the names
in the module of types are apart and spelled as the language asks for, each type is declared and
exported once, and the label function of every record sends each field to its own property. -/
theorem types_lead_back {document : Document} {settings : TargetSettings} {api : Api}
    {notices : List Notice}
    (h : run ⟨document, settings.apply target⟩ = some ⟨.ok api, notices⟩)
    (hkeys : document.tree.hasDistinctKeys = true) :
    let context : RenderContext := ⟨api, settings.apply target⟩
    (typeNames context = [] ∧ typesTemplate.render context .api = .ok .elided) ∨
      ∃ text notes types, typesTemplate.render context .api = .ok (.file text notes) ∧
        LeadsBack context (declarationsOf text) types := by
  intro context
  obtain ⟨_, _, _, _, _, _, haccount⟩ := Lowering.account_of_run_eq_ok h hkeys
  obtain hnone | ⟨types, text, hrender, hread⟩ := elided_or_isReadFrom h hkeys
  · exact .inl hnone
  · exact .inr ⟨text, types.notes, _, hrender, hread.leadsBack fun model hmodel =>
      (haccount.fieldsApart hmodel).rawNames⟩

/-- Values that ask for one constructor, one of them for the name of a record, and fields that ask
for one name, in one record and in two. -/
theorem types_lead_back_collisions :
    let strings : Json := .object [("type", .string "string")]
    let tree : Json := .object [
      ("info", .object []),
      ("paths", .object []),
      ("definitions", .object [
        ("Pet", .object [("enum", .array [.string "a b", .string "a-b", .string "1"])]),
        ("pet a b", .object [("properties", .object [("x y", strings), ("x_y", strings)])]),
        ("A", .object [("properties", .object [("bC", strings)])]),
        ("a b", .object [("properties", .object [("c", strings), ("JsonField", strings)])])])]
    let settings : TargetSettings := {}
    ∃ document api notices, Document.ofTree tree = .ok document ∧
      tree.hasDistinctKeys = true ∧
      run ⟨document, settings.apply target⟩ = some ⟨.ok api, notices⟩ ∧
      (api.models.models.map fun model =>
        (model.name, model.fields.map fun field => (field.name, field.rawName))) =
          [("Pet", []), ("PetAB", [("xY", "x y"), ("xY2", "x_y")]), ("A", [("bC", "bC")]),
            ("AB", [("c", "c"), ("jsonField", "JsonField")])] ∧
      ∃ text notes types,
        typesTemplate.render ⟨api, settings.apply target⟩ .api = .ok (.file text notes) ∧
          LeadsBack ⟨api, settings.apply target⟩ (declarationsOf text) types := by
  intro strings tree settings
  have hview : ((Document.ofTree tree).toOption.bind fun document =>
      (run ⟨document, settings.apply target⟩).bind fun result => result.outcome.toOption.map
        fun api => api.models.models.map fun model =>
          (model.name, model.fields.map fun field => (field.name, field.rawName))) =
      some [("Pet", []), ("PetAB", [("xY", "x y"), ("xY2", "x_y")]), ("A", [("bC", "bC")]),
        ("AB", [("c", "c"), ("jsonField", "JsonField")])] := by
    decide +kernel
  have hkeys : tree.hasDistinctKeys = true := by decide +kernel
  obtain ⟨document, api, notices, hdocument, hrun, hmodels⟩ := Lowering.exists_run_of_view hview
  obtain rfl := Document.eq_of_ofTree hdocument
  refine ⟨_, api, notices, hdocument, hkeys, hrun, hmodels, ?_⟩
  obtain ⟨hnone, -⟩ | hsome := types_lead_back hrun hkeys
  · have hempty : api.models.models = [] :=
      List.map_eq_nil_iff.1 (List.append_eq_nil_iff.1 hnone).1
    simp [hempty] at hmodels
  · exact hsome

end ServantGen.Haskell
