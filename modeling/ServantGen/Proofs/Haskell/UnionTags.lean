import ServantGen.Proofs.Haskell.EnumTexts
import ServantGen.Proofs.Lowering.Unions

/-!
# Tags of unions

The reader of a union with a discriminator takes the text under a property of the object for a tag
and sends each tag to a constructor. The tags come from the document, the models they stand for
from the names of its schemas, and the constructors from the module. The entry of a tag is written
if its model is a variant of the union; its alternative then leads to a constructor that wraps this
model and nothing else.
-/

namespace ServantGen.Haskell

/-! ## Reading the alternatives of tags -/

/-- The reader of a union: its name in messages, the property of the tag, and the tags with the
constructors that they are read as. -/
structure TagReader where
  title : String
  property : String
  alternatives : List (String × String)
  deriving DecidableEq, Repr

/-- The tags with their constructors, up to the alternative of all other tags. -/
def tagAlternatives? : List String → Option (List (String × String))
  | own :: "->" :: constructor :: "<$>" :: "parseJSON" :: "(" :: "Aeson.Object" :: "object" ::
      ")" :: rest => do
    let tag ← unquote? own
    let others ← tagAlternatives? rest
    return (tag, constructor) :: others
  | "other" :: "->" :: "fail" :: _ => some []
  | _ => none

/-- How a type is read from JSON by a tag. -/
def tagReader? (name : String) (declarations : List (List String)) : Option TagReader := do
  let method ← behind? ["instance", "FromJSON", name, "where"] declarations
  match method with
  | "parseJSON" :: "=" :: "Aeson.withObject" :: title :: "$" :: "\\object" :: "->" :: "do" ::
      "tag" :: "<-" :: "object" :: "Aeson..:" :: property :: "case" :: "(" :: "tag" :: "::" ::
      "Text" :: ")" :: "of" :: alternatives => do
    let title ← unquote? title
    let property ← unquote? property
    let alternatives ← tagAlternatives? alternatives
    return ⟨title, property, alternatives⟩
  | _ => none

theorem tagAlternatives?_tagCases (name : String) (selected : List (String × String)) :
    tagAlternatives? (Declaration.tagCases selected ++ Declaration.unknownTag name) =
      some selected := by
  induction selected with
  | nil => rfl
  | cons entry selected ih =>
    rw [Declaration.tagCases] at ih ⊢
    simp only [List.flatMap_cons, List.cons_append, List.nil_append, tagAlternatives?, ih,
      unquote?_literal, Option.bind_eq_bind, Option.bind_some, Option.pure_def]

/-- A union is read by its tags: its constructors wrap one variant each, and there is one
alternative for each entry whose target is a variant, in order, which leads from the tag to a
constructor that wraps the target. -/
structure ReadsTags (name : String) (variants : List String) (discriminator : Discriminator)
    (declarations : List (List String)) (type : ReadType) (reader : TagReader) : Prop where
  once : (type.constructors.map ReadConstructor.name).Nodup
  wrapped : type.constructors.map (fun own => (own.fields, own.arguments)) =
    variants.map fun variant => ([], [variant])
  read : tagReader? name declarations = some reader
  title : reader.title = name
  property : reader.property = discriminator.property
  alternatives : List.Forall₂ (fun entry alternative => alternative.1 = entry.1 ∧
      ⟨alternative.2, [], [entry.2]⟩ ∈ type.constructors)
    (discriminator.mapping.filter fun entry => variants.contains entry.2) reader.alternatives

/-- The tags that are known are those of the entries whose targets are variants. -/
theorem ReadsTags.map_tags {name : String} {variants : List String} {discriminator : Discriminator}
    {declarations : List (List String)} {type : ReadType} {reader : TagReader}
    (h : ReadsTags name variants discriminator declarations type reader) :
    reader.alternatives.map Prod.fst =
      (discriminator.mapping.filter fun entry => variants.contains entry.2).map Prod.fst := by
  rw [← List.forall₂_eq_eq_eq, List.forall₂_map_left_iff, List.forall₂_map_right_iff]
  exact (h.alternatives.imp fun _ _ halternative => halternative.1).flip

/-- The tags that are selected are those whose models are wrapped. -/
theorem forall₂_selectedTags (constructors mapping : List (String × String)) :
    List.Forall₂ (fun entry selected => selected.1 = entry.1 ∧ (selected.2, entry.2) ∈ constructors)
      (mapping.filter fun entry => (constructors.map Prod.snd).contains entry.2)
      (Declaration.selectedTags constructors mapping) := by
  refine Outcomes.forall₂_filterMap (fun entry _ => ?_) fun entry _ selected hselected => ?_
  · rw [Option.isSome_map, Bool.eq_iff_iff, List.find?_isSome, List.contains_iff_mem]
    simp
  · obtain ⟨⟨constructor, variant⟩, hfound, rfl⟩ := Option.map_eq_some_iff.1 hselected
    obtain rfl : variant = entry.2 := by simpa using List.find?_some hfound
    exact ⟨rfl, List.mem_of_find?_eq_some hfound⟩

namespace TypesModule

variable {context : RenderContext} {types : TypesModule} {read : List (List String)}
  (h : types.IsReadFrom context read) {declaration : Declaration}
  (hmem : declaration ∈ types.declarations) {constructors : List (String × String)}
  {discriminator : Discriminator}
  (hbody : declaration.body = .union constructors (some discriminator))
include h hmem hbody

theorem IsReadFrom.tagReader?_eq : tagReader? declaration.name read =
    some ⟨declaration.name, discriminator.property,
      Declaration.selectedTags constructors discriminator.mapping⟩ := by
  have hbehind := @IsReadFrom.behind?_instance _ _ _ h _ hmem
    (Declaration.taggedInstances declaration.name constructors discriminator)
    (fun _ _ hread => hread.tagged _ _ hbody) "FromJSON" _
    (by simp [Declaration.taggedInstances, List.isPrefixOf]; rfl)
  rw [tagReader?, hbehind]
  simp only [Option.bind_eq_bind, Option.bind_some, unquote?_literal, tagAlternatives?_tagCases,
    Option.pure_def]

/-- The reader of a union sends tags to the constructors that it is declared with. -/
theorem IsReadFrom.readsTags : ReadsTags declaration.name (constructors.map Prod.snd)
    discriminator read declaration.readType ⟨declaration.name, discriminator.property,
      Declaration.selectedTags constructors discriminator.mapping⟩ where
  once := by
    have hown := (List.nodup_flatMap.1 h.isFor.nodup_constructors).1 declaration hmem
    simpa [Declaration.constructors, Declaration.readType, hbody, Function.comp_def] using hown
  wrapped := by simp [Declaration.readType, hbody, Function.comp_def]
  read := h.tagReader?_eq hmem hbody
  title := rfl
  property := rfl
  alternatives := by
    refine (forall₂_selectedTags constructors discriminator.mapping).imp ?_
    rintro entry ⟨tag, constructor⟩ ⟨htag, hconstructor⟩
    refine ⟨htag, ?_⟩
    simpa [Declaration.readType, hbody] using hconstructor

end TypesModule

/-! ## Unions of a lowered interface -/

open Lowering (run Notice)

/-- A declaration of a union with variants has a constructor for each. -/
theorem DeclaresType.exists_constructors {context : RenderContext} {model : Model}
    {declaration : Declaration} (h : DeclaresType context model declaration)
    {variants : List String} (hshape : model.shape = .union variants) (hne : variants ≠ []) :
    ∃ constructors, declaration.body = .union constructors model.discriminator ∧
      constructors.map Prod.snd = variants := by
  have hbody := h.body
  rw [hshape] at hbody
  generalize declaration.body = body at hbody ⊢
  cases hbody with
  | noVariants => exact absurd rfl hne
  | union _ => exact ⟨_, rfl, rfl⟩

/-- What is read of a union: a type whose constructors wrap the variants, and a reader by tags. -/
def ReadsUnion (model : Model) (variants : List String) (discriminator : Discriminator)
    (declarations : List (List String)) : Prop :=
  ∃ types type reader, typesIn? declarations = some types ∧ type ∈ types ∧
    type.name = model.name ∧
      ReadsTags model.name variants discriminator declarations type reader

theorem TypesModule.IsReadFrom.readsUnion {context : RenderContext} {types : TypesModule}
    {read : List (List String)} (h : types.IsReadFrom context read) {model : Model}
    (hmodel : model ∈ declaredTypes context.api) {variants : List String}
    (hshape : model.shape = .union variants) (hne : variants ≠ []) {discriminator : Discriminator}
    (hdiscriminator : model.discriminator = some discriminator) :
    ReadsUnion model variants discriminator read := by
  obtain ⟨declaration, hmem, hdeclares⟩ :=
    Outcomes.exists_of_mem_of_forall₂ h.isFor.declares.flip hmodel
  obtain ⟨constructors, hbody, rfl⟩ := hdeclares.exists_constructors hshape hne
  rw [hdiscriminator] at hbody
  have htags := h.readsTags hmem hbody
  rw [hdeclares.name] at htags
  exact ⟨_, declaration.readType, _, h.typesIn?_eq, List.mem_map_of_mem hmem, hdeclares.name, htags⟩

/-- Whatever document an interface was lowered from, each of its unions with a discriminator is made
from a schema and has the tags of the schema that it is made from. A tag that the schema maps stands
for the model of the schema that its target denotes. Without a mapping there is a tag for each
variant that is given by a reference to a named schema: the last token of the reference, which is
the name of the schema if the reference spells it out, and only then. The generated instance sends
each tag whose model is a variant to a constructor that wraps this model. -/
theorem tags_select_variants {tree : Json} {document : Document} {settings : TargetSettings}
    {api : Api} {notices : List Notice} (hdocument : Document.ofTree tree = .ok document)
    (hkeys : tree.hasDistinctKeys = true)
    (h : run ⟨document, settings.apply target⟩ = some ⟨.ok api, notices⟩) :
    ∃ final questions, (Lowering.lowerApi ⟨document, settings.apply target⟩).run.run .initial =
        some (.ok api, final) ∧
      Lowering.QuestionsOf ⟨document, settings.apply target⟩ questions ∧
      ∀ model ∈ api.models.models, ∀ variants discriminator, model.shape = .union variants →
        model.discriminator = some discriminator →
        (∃ schema,
          Lowering.IsMadeFrom ⟨document, settings.apply target⟩ questions final schema model) ∧
        (∀ schema,
          Lowering.IsMadeFrom ⟨document, settings.apply target⟩ questions final schema model →
          Lowering.TellsApart document
            (Lowering.IsModelOf ⟨document, settings.apply target⟩ api final) schema variants
            discriminator) ∧
        ∃ text notes,
          typesTemplate.render ⟨api, settings.apply target⟩ .api = .ok (.file text notes) ∧
            ReadsUnion model variants discriminator (declarationsOf text) := by
  have hpaths := Document.pathsInTree_of_ofTree hdocument
  obtain rfl := Document.eq_of_ofTree hdocument
  obtain ⟨final, hrun, -, declared, added, claimed, haccount⟩ :=
    Lowering.account_of_run_eq_ok h hkeys
  obtain ⟨questions, hquestions, hadded⟩ := haccount.made
  refine ⟨final, questions, hrun, hquestions,
    fun model hmodel variants discriminator hshape hdiscriminator => ?_⟩
  have htells := fun schema
      (hmade : Lowering.IsMadeFrom ⟨_, settings.apply target⟩ questions final schema model) =>
    haccount.tellsApart hmade hshape hdiscriminator
  obtain ⟨schema, hmade⟩ :=
    haccount.exists_isMadeFrom (hquestions.site_mem hpaths hrun) hadded hmodel hshape
  obtain ⟨types, text, hrender, hread⟩ :=
    exists_isReadFrom_of_mem h hkeys (List.mem_append_left _ hmodel)
  exact ⟨⟨schema, hmade⟩, htells, text, types.notes, hrender, hread.readsUnion
    (List.mem_append_left _ hmodel) hshape (htells schema hmade).ne_nil hdiscriminator⟩

/-- A union without a mapping, one of whose variants is given by an escaped name and one by no
reference, and a union with a mapping by name and by reference, to a schema that is no variant and
to none at all. -/
theorem tags_select_variants_escaped :
    let reference (text : String) : Json := .object [("$ref", .string text)]
    let tree : Json := .object [
      ("info", .object []),
      ("paths", .object []),
      ("components", .object [("schemas", .object [
        ("Cat", .object [("type", .string "object")]),
        ("a/b", .object [("type", .string "object")]),
        ("Plain", .object [
          ("oneOf", .array [reference "#/components/schemas/Cat",
            reference "#/components/schemas/a~1b", .object [("type", .string "string")]]),
          ("discriminator", .object [("propertyName", .string "kind")])]),
        ("Mapped", .object [
          ("anyOf", .array [reference "#/components/schemas/Cat",
            reference "#/components/schemas/a~1b"]),
          ("discriminator", .object [("propertyName", .string "kind"),
            ("mapping", .object [("cat", .string "Cat"), ("dog", .string "Dog"),
              ("slash", .string "#/components/schemas/a~1b"),
              ("plain", .string "Plain")])])])])])]
    let settings : TargetSettings := {}
    ∃ document api notices, Document.ofTree tree = .ok document ∧
      tree.hasDistinctKeys = true ∧
      run ⟨document, settings.apply target⟩ = some ⟨.ok api, notices⟩ ∧
      api.models.models.map (fun model => (model.name, model.discriminator)) =
        [("Cat", none), ("AB", none),
          ("Plain", some ⟨"kind", [("Cat", "Cat"), ("a~1b", "AB")]⟩),
          ("Mapped", some ⟨"kind", [("cat", "Cat"), ("slash", "AB"), ("plain", "Plain")]⟩),
          ("PlainVariant3", none)] ∧
      ∃ final questions, (Lowering.lowerApi ⟨document, settings.apply target⟩).run.run .initial =
          some (.ok api, final) ∧
        Lowering.QuestionsOf ⟨document, settings.apply target⟩ questions ∧
        ∀ model ∈ api.models.models, ∀ variants discriminator, model.shape = .union variants →
          model.discriminator = some discriminator →
          (∃ schema,
            Lowering.IsMadeFrom ⟨document, settings.apply target⟩ questions final schema model) ∧
          (∀ schema,
            Lowering.IsMadeFrom ⟨document, settings.apply target⟩ questions final schema model →
            Lowering.TellsApart document
              (Lowering.IsModelOf ⟨document, settings.apply target⟩ api final) schema variants
              discriminator) ∧
          ∃ text notes,
            typesTemplate.render ⟨api, settings.apply target⟩ .api = .ok (.file text notes) ∧
              ReadsUnion model variants discriminator (declarationsOf text) := by
  intro reference tree settings
  have hview : ((Document.ofTree tree).toOption.bind fun document =>
      (run ⟨document, settings.apply target⟩).bind fun result => result.outcome.toOption.map
        fun api => api.models.models.map fun model => (model.name, model.discriminator)) =
      some [("Cat", none), ("AB", none),
        ("Plain", some ⟨"kind", [("Cat", "Cat"), ("a~1b", "AB")]⟩),
        ("Mapped", some ⟨"kind", [("cat", "Cat"), ("slash", "AB"), ("plain", "Plain")]⟩),
        ("PlainVariant3", none)] := by
    decide +kernel
  have hkeys : tree.hasDistinctKeys = true := by decide +kernel
  obtain ⟨document, api, notices, hdocument, hrun, hmodels⟩ := Lowering.exists_run_of_view hview
  exact ⟨document, api, notices, hdocument, hkeys, hrun, hmodels,
    tags_select_variants hdocument hkeys hrun⟩

/-- The tag of a variant is not the name of its schema if the reference escapes a slash in the
name: the generated instance knows the escaped spelling alone. -/
theorem tag_is_escaped :
    let tree : Json := .object [
      ("info", .object []),
      ("paths", .object []),
      ("components", .object [("schemas", .object [
        ("a/b", .object [("type", .string "object")]),
        ("U", .object [
          ("oneOf", .array [.object [("$ref", .string "#/components/schemas/a~1b")]]),
          ("discriminator", .object [("propertyName", .string "kind")])])])])]
    let settings : TargetSettings := {}
    ∃ document api notices, Document.ofTree tree = .ok document ∧
      tree.hasDistinctKeys = true ∧
      run ⟨document, settings.apply target⟩ = some ⟨.ok api, notices⟩ ∧
      api.models.models = [⟨"AB", "a/b", none, .record [], none⟩,
        ⟨"U", "U", none, .union ["AB"], some ⟨"kind", [("a~1b", "AB")]⟩⟩] ∧
      ∃ text notes reader,
        typesTemplate.render ⟨api, settings.apply target⟩ .api = .ok (.file text notes) ∧
        tagReader? "U" (declarationsOf text) = some reader ∧
        reader.alternatives.map Prod.fst = ["a~1b"] := by
  intro tree settings
  have hview : ((Document.ofTree tree).toOption.bind fun document =>
      (run ⟨document, settings.apply target⟩).bind fun result => result.outcome.toOption.map
        fun api => api.models.models) =
      some [⟨"AB", "a/b", none, .record [], none⟩,
        ⟨"U", "U", none, .union ["AB"], some ⟨"kind", [("a~1b", "AB")]⟩⟩] := by
    decide +kernel
  have hkeys : tree.hasDistinctKeys = true := by decide +kernel
  obtain ⟨document, api, notices, hdocument, hrun, hmodels⟩ := Lowering.exists_run_of_view hview
  obtain rfl := Document.eq_of_ofTree hdocument
  have hdeclared : ⟨"U", "U", none, .union ["AB"], some ⟨"kind", [("a~1b", "AB")]⟩⟩ ∈
      declaredTypes api := List.mem_append_left _ (by simp [hmodels])
  obtain ⟨types, text, hrender, hread⟩ := exists_isReadFrom_of_mem hrun hkeys hdeclared
  obtain ⟨-, type, reader, -, -, -, htags⟩ := hread.readsUnion hdeclared rfl (by simp) rfl
  refine ⟨_, api, notices, hdocument, hkeys, hrun, hmodels, text, types.notes, reader, hrender,
    htags.read, ?_⟩
  rw [htags.map_tags]
  rfl

end ServantGen.Haskell
