import ServantGen.Proofs.Ledger.Order
import ServantGen.Proofs.Lowering.Invariants
import ServantGen.Proofs.Lowering.References

/-!
# How unions tell their variants apart

A union with a discriminator either maps tags to schemas or takes the references of its variants
for tags. In both cases the models are those of named schemas by the names that all schemas have
before the first of them is lowered, and that no step changes afterwards. A tag that is taken from
a reference is the last token of its text. It is the name of the schema when the reference spells
the name out; a name with a slash or with an escape sequence in it is spelled otherwise.
-/

namespace ServantGen

/-! ## Last tokens -/

namespace Pointer

variable {reference : String} {before rest : List Char}

/-- Behind the last slash stands the last token. -/
theorem lastToken_eq (h : reference.toList = before ++ '/' :: rest) (hslash : '/' ∉ rest) :
    lastToken reference = String.ofList rest := by
  have hrest : Text.splitBy (· == '/') rest = [rest] :=
    Text.splitBy_eq_singleton fun c hc => beq_false_of_ne fun heq => hslash (heq ▸ hc)
  rw [lastToken, Text.splitOn, h, Text.splitBy_append_cons (by decide), hrest]
  simp

theorem slash_notMem_lastToken (reference : String) : '/' ∉ (lastToken reference).toList := by
  obtain ⟨last, hlast⟩ : ∃ last, (Text.splitOn '/' reference).getLast? = some last := by
    rw [← Option.isSome_iff_exists, List.getLast?_isSome]
    simp [Text.splitOn, Text.splitBy_ne_nil]
  rw [lastToken, List.getLastD_eq_getLast?, hlast, Option.getD_some]
  obtain ⟨piece, hpiece, rfl⟩ := List.mem_map.1 (List.mem_of_getLast? hlast)
  rw [String.toList_ofList]
  intro hmem
  exact absurd (Text.isBreak_eq_false_of_mem_splitBy hpiece hmem) (by decide)

theorem slash_mem_unescape {text : List Char} (h : '/' ∈ text) : '/' ∈ unescape text := by
  induction text using unescape.induct with
  | case1 => exact h
  | case2 rest ih => exact List.mem_cons_self
  | case3 rest ih =>
    obtain h | h := List.mem_cons.1 h
    · exact absurd h (by decide)
    · obtain h | h := List.mem_cons.1 h
      · exact absurd h (by decide)
      · exact List.mem_cons_of_mem _ (ih h)
  | case4 c rest hslash htilde ih =>
    rw [unescape.eq_4 _ _ hslash htilde]
    obtain rfl | h := List.mem_cons.1 h
    · exact List.mem_cons_self
    · exact List.mem_cons_of_mem _ (ih h)

end Pointer

namespace Lowering

/-- A reference that spells the name of a schema out: behind the section stands the name as it is,
and it has no slash. -/
def SpellsOut (raw reference : String) : Prop :=
  ∃ lead ∈ schemaSections, reference = lead ++ raw ∧ '/' ∉ raw.toList

/-- The last token of a reference to a schema is the name of the schema if the reference spells it
out, and only then. -/
theorem lastToken_eq_iff_spellsOut {reference raw : String}
    (h : namedSchema? reference = some raw) :
    Pointer.lastToken reference = raw ↔ SpellsOut raw reference := by
  have hends : ∀ lead ∈ schemaSections, ∃ before, lead.toList = before ++ ['/'] := by
    intro lead hlead
    obtain rfl | rfl : lead = "#/components/schemas/" ∨ lead = "#/definitions/" := by
      simpa [schemaSections] using hlead
    · exact ⟨"#/components/schemas".toList, rfl⟩
    · exact ⟨"#/definitions".toList, rfl⟩
  obtain ⟨rest, hfound, rfl⟩ := Option.map_eq_some_iff.1 h
  obtain ⟨lead, hlead, hstrip⟩ := List.exists_of_findSome?_eq_some hfound
  have htext : reference.toList = lead.toList ++ rest := Text.stripStart?_eq_some_iff.1 hstrip
  obtain ⟨before, hbefore⟩ := hends lead hlead
  have hslash : reference.toList = before ++ '/' :: rest := by simp [htext, hbefore]
  constructor
  · intro htag
    have hnone : '/' ∉ Pointer.unescape rest := by
      have hlast := Pointer.slash_notMem_lastToken reference
      rwa [htag, String.toList_ofList] at hlast
    have hraw := Pointer.lastToken_eq hslash fun hmem => hnone (Pointer.slash_mem_unescape hmem)
    rw [htag] at hraw
    refine ⟨lead, hlead, ?_, by rwa [String.toList_ofList]⟩
    rw [hraw, ← String.toList_inj]
    simp [htext]
  · rintro ⟨lead, hlead, hreference, hraw⟩
    obtain ⟨before, hbefore⟩ := hends lead hlead
    generalize String.ofList (Pointer.unescape rest) = raw at hreference hraw ⊢
    have hspelled : reference.toList = before ++ '/' :: raw.toList := by
      simp [hreference, hbefore]
    simpa using Pointer.lastToken_eq hspelled hraw

/-! ## What a discriminator is made from -/

section Tags

variable (document : Document)

def isReferred (alternative : Site) : Bool :=
  alternative.reference?.any (isNamed document)

def tagTargets? (schema : Site) : Option (List (String × Site)) :=
  ((schema.get? "discriminator").bind (·.get? "mapping")).bind Site.members?

/-- The named schema that the target of a tag denotes: by a reference or else by its name. -/
def denoted? (target : Site) : Option String :=
  target.node.string?.bind fun text =>
    ((namedSchema? text).filter (Entries.has document.schemas)).or
      ((some text).filter (Entries.has document.schemas))

theorem has_of_denoted? {target : Site} {raw : String} (h : denoted? document target = some raw) :
    Entries.has document.schemas raw = true := by
  obtain ⟨text, -, hraw⟩ := Option.bind_eq_some_iff.1 h
  obtain hraw | ⟨-, hraw⟩ := Option.or_eq_some_iff.1 hraw
  · exact (Option.filter_eq_some_iff.1 hraw).2
  · exact (Option.filter_eq_some_iff.1 hraw).2

/-- The entry of a variant that is given by a reference: its target is the variant, the model of
the schema that the reference names. Its tag is the last token of the reference, which is the name
of the schema if the reference spells it out, and only then. -/
structure IsReferredEntry (ofSchema : String → String → Prop) (alternative : Site)
    (variant : String) (entry : String × String) : Prop where
  target : entry.2 = variant
  tag : ∃ reference raw, alternative.reference? = some reference ∧
    namedSchema? reference = some raw ∧ ofSchema raw entry.2 ∧
      entry.1 = Pointer.lastToken reference ∧ (entry.1 = raw ↔ SpellsOut raw reference)

/-- The entry of a tag that the schema maps: its target is the model of the schema that is
denoted. -/
structure IsMappedEntry (ofSchema : String → String → Prop) (own : String × Site)
    (entry : String × String) : Prop where
  tag : entry.1 = own.1
  target : ∃ raw, denoted? document own.2 = some raw ∧ ofSchema raw entry.2

/-- How a union tells its variants apart, by what its schema says and by which model each named
schema has. There is one entry for each variant that is given by a reference to a named schema or,
if the schema maps tags, for each tag whose target denotes one; both in order, and no other. -/
structure TellsApart (ofSchema : String → String → Prop) (schema : Site) (variants : List String)
    (discriminator : Discriminator) : Prop where
  property : (schema.get? "discriminator").bind (·.string? "propertyName") =
    some discriminator.property
  alternatives : ∃ alternatives, alternatives? schema = some alternatives ∧
    alternatives.length = variants.length ∧ (tagTargets? schema = none →
      List.Forall₂ (fun own => IsReferredEntry ofSchema own.1 own.2)
        ((alternatives.zip variants).filter fun own => isReferred document own.1)
        discriminator.mapping)
  mapped : ∀ targets, tagTargets? schema = some targets →
    List.Forall₂ (IsMappedEntry document ofSchema)
      (targets.filter fun own => (denoted? document own.2).isSome) discriminator.mapping

/-- A union has a variant. -/
theorem TellsApart.ne_nil {document : Document} {ofSchema : String → String → Prop} {schema : Site}
    {variants : List String} {discriminator : Discriminator}
    (h : TellsApart document ofSchema schema variants discriminator) : variants ≠ [] := by
  obtain ⟨alternatives, halternatives, hlength, -⟩ := h.alternatives
  have hfull := (Option.filter_eq_some_iff.1 halternatives).2
  rintro rfl
  simp [List.length_eq_zero_iff.1 hlength] at hfull

end Tags

section Names

variable {document : Document} {names : Entries String}
  (hnames : ∀ raw, names.has raw = Entries.has document.schemas raw)
include hnames

theorem get?_filter_has (raw : Option String) :
    (raw.filter (Entries.has document.schemas)).bind names.get? = raw.bind names.get? := by
  cases raw with
  | none => rfl
  | some raw =>
    cases hhas : names.has raw with
    | true =>
      have hown := hnames raw
      rw [hhas] at hown
      simp [Option.filter, ← hown]
    | false =>
      have hnone : names.get? raw = none := by simpa [Entries.has] using hhas
      simp [Option.filter, ← hnames raw, hhas, hnone]

/-- The model for the target of a tag is that of the schema which is denoted. -/
theorem denoted?_bind_get? (target : Site) :
    (denoted? document target).bind names.get? = target.node.string?.bind fun text =>
      (schemaModel? names text).or (names.get? text) := by
  rw [denoted?, Option.bind_assoc]
  congr 1
  funext text
  have hreferred := get?_filter_has hnames (namedSchema? text)
  have hnamed := get?_filter_has hnames (some text)
  rw [schemaModel?, ← hreferred, ← Option.bind_some text names.get?, ← hnamed]
  cases hraw : (namedSchema? text).filter (Entries.has document.schemas) with
  | none => rfl
  | some raw =>
    have hhas : (names.get? raw).isSome = true :=
      (hnames raw).trans (Option.filter_eq_some_iff.1 hraw).2
    obtain ⟨model, hmodel⟩ := Option.isSome_iff_exists.1 hhas
    simp [hmodel]

end Names

/-! ## The names of schemas are kept -/

def HasNames (names : Entries String) (_ : NoRecord) (state : State) : Prop :=
  state.schemaNames = names

/-- A computation that gives no schema another name, and whose result is right. -/
abbrev KeepsNames {α : Type} (names : Entries String) (m : SchemaM α) (right : α → Prop) : Prop :=
  Grows (HasNames names) ⟨⟩ m fun _ => right

/-- The variant for an alternative: the model of the schema that it refers to, with the last token
of the reference, or any other model. -/
inductive IsVariantFor (names : Entries String) (alternative : Site) : Variant → Prop
  | referred {reference model : String} (hreference : alternative.reference? = some reference)
      (hmodel : schemaModel? names reference = some model) :
      IsVariantFor names alternative ⟨model, some (Pointer.lastToken reference)⟩
  | other {model : String} (hnone : ∀ reference, alternative.reference? = some reference →
      schemaModel? names reference = none) : IsVariantFor names alternative ⟨model, none⟩

/-- A shape with a discriminator, if it is that of a union, tells the variants apart. -/
def ShapeTellsApart (document : Document) (names : Entries String) (schema : Site)
    (result : Shape × Option Discriminator) : Prop :=
  ∀ variants discriminator, result = (.union variants, some discriminator) →
    TellsApart document (fun raw name => names.get? raw = some name) schema variants discriminator

/-- The entries of variants are those of the alternatives that are references. -/
theorem forall₂_isReferredEntry {document : Document} {names : Entries String}
    (hnames : ∀ raw, names.has raw = Entries.has document.schemas raw) {alternatives : List Site}
    {variants : List Variant} (h : List.Forall₂ (IsVariantFor names) alternatives variants) :
    List.Forall₂ (fun own => IsReferredEntry (fun raw name => names.get? raw = some name)
        own.1 own.2)
      ((alternatives.zip (variants.map Variant.model)).filter
        fun own => isReferred document own.1)
      (variants.filterMap fun variant =>
        variant.schemaName.map fun schemaName => (schemaName, variant.model)) := by
  induction h with
  | nil => exact .nil
  | cons hvariant _ ih =>
    cases hvariant with
    | @referred reference model hreference hmodel =>
      have hreferred : isNamed document reference = true := by
        rw [← isSome_schemaModel? hnames, hmodel]
        rfl
      obtain ⟨raw, hraw, hget⟩ := Option.bind_eq_some_iff.1 hmodel
      simp only [List.map_cons, List.zip_cons_cons, List.filter_cons, isReferred, hreference,
        Option.any_some, hreferred, if_true, List.filterMap_cons, Option.map_some]
      exact .cons ⟨rfl, reference, raw, hreference, hraw, hget, rfl,
        lastToken_eq_iff_spellsOut hraw⟩ ih
    | other hnone =>
      rename_i alternative _ _ _ _
      have hother : isReferred document alternative = false := by
        cases hreference : alternative.reference? with
        | none => simp [isReferred, hreference]
        | some reference =>
          simp [isReferred, hreference, ← isSome_schemaModel? hnames, hnone reference hreference]
      simpa [hother] using ih

/-- The entries of a mapping are those of the targets that denote schemas. -/
theorem forall₂_isMappedEntry {document : Document} {names : Entries String}
    (hnames : ∀ raw, names.has raw = Entries.has document.schemas raw)
    (targets : List (String × Site)) :
    List.Forall₂ (IsMappedEntry document fun raw name => names.get? raw = some name)
      (targets.filter fun own => (denoted? document own.2).isSome)
      (targets.filterMap fun (tag, entry) => do
        let target ← entry.node.string?
        let model ← (schemaModel? names target).or (names.get? target)
        some (tag, model)) := by
  have hentries : (targets.filterMap fun (tag, entry) => do
        let target ← entry.node.string?
        let model ← (schemaModel? names target).or (names.get? target)
        some (tag, model)) =
      targets.filterMap fun own =>
        ((denoted? document own.2).bind names.get?).map (own.1, ·) := by
    refine List.filterMap_congr ?_
    rintro ⟨tag, entry⟩ -
    rw [denoted?_bind_get? hnames]
    dsimp only
    cases entry.node.string? with
    | none => rfl
    | some text => exact Option.map_eq_bind.symm
  rw [hentries]
  refine Outcomes.forall₂_filterMap (fun own _ => ?_) fun own _ entry hentry => ?_
  · rw [Option.isSome_map]
    cases hdenoted : denoted? document own.2 with
    | none => rfl
    | some raw => exact (hnames raw).trans (has_of_denoted? document hdenoted)
  · obtain ⟨model, hfound, rfl⟩ := Option.map_eq_some_iff.1 hentry
    obtain ⟨raw, hdenoted, hget⟩ := Option.bind_eq_some_iff.1 hfound
    exact ⟨rfl, raw, hdenoted, hget⟩

theorem tellsApart_of_discriminatorOf? {document : Document} {names : Entries String}
    (hnames : ∀ raw, names.has raw = Entries.has document.schemas raw) {schema : Site}
    {alternatives : List Site} (halternatives : alternatives? schema = some alternatives)
    {variants : List Variant} (h : List.Forall₂ (IsVariantFor names) alternatives variants)
    {discriminator : Discriminator}
    (hdiscriminator : discriminatorOf? names schema variants = some discriminator) :
    TellsApart document (fun raw name => names.get? raw = some name) schema
      (variants.map Variant.model) discriminator := by
  obtain ⟨node, hnode, hproperty⟩ := Option.bind_eq_some_iff.1 hdiscriminator
  obtain ⟨property, hnamed, hmade⟩ := Option.bind_eq_some_iff.1 hproperty
  obtain rfl := Option.some.inj hmade
  have htargets : tagTargets? schema = (node.get? "mapping").bind Site.members? := by
    rw [tagTargets?, hnode, Option.bind_some]
  refine ⟨by rw [hnode, Option.bind_some, hnamed], ⟨alternatives, halternatives,
    by simpa using h.length_eq, fun hnone => ?_⟩, fun targets hsome => ?_⟩
  · rw [← htargets, hnone]
    exact forall₂_isReferredEntry hnames h
  · rw [← htargets, hsome]
    exact forall₂_isMappedEntry hnames targets

/-- A way of finding types that gives no schema another name. -/
def FinderKeepsNames (names : Entries String) (find : TypeFinder) : Prop :=
  ∀ site hint location, KeepsNames names (find site hint location) fun _ => True

/-- The recursion on schemas gives no schema another name. -/
theorem hasNames_law (names : Entries String) :
    TypeLaw (fun _ => True) (HasNames names ⟨⟩) fun _ => True where
  names _ h := h
  depth _ h := h
  notice _ _ h := h
  model _ h := h
  primitive _ := trivial
  named _ := trivial
  enum _ _ _ := trivial
  array _ := trivial
  map _ := trivial
  orNone _ := trivial

/-- However deep the recursion may go, it gives no schema another name. -/
theorem typeOf_keepsNames (setting : Setting) (names : Entries String) (depth : Nat) :
    FinderKeepsNames names (typeOf setting depth) :=
  fun site => (hasNames_law names).typeOf (covers_all setting.document) depth site trivial

section Steps

variable {setting : Setting} {names : Entries String} {recur : TypeFinder}
  (hrecur : FinderKeepsNames names recur)
include hrecur

theorem variantOf_keepsNames (model location : String) (position : Nat) (alternative : Site) :
    KeepsNames names (variantOf setting recur model location position alternative)
      (IsVariantFor names alternative) := by
  refine Grows.get_bind ?_
  rintro state rfl
  split
  · rename_i variant hvariant
    obtain ⟨reference, hreference, hvariant⟩ := Option.bind_eq_some_iff.1 hvariant
    obtain ⟨target, hmodel, rfl⟩ := Option.map_eq_some_iff.1 hvariant
    exact Grows.pure (.referred hreference hmodel)
  · rename_i hvariant
    have hnone : ∀ reference, alternative.reference? = some reference →
        schemaModel? state.schemaNames reference = none := by
      intro reference hreference
      simpa [hreference] using hvariant
    refine (hrecur alternative _ location).bind fun _ type _ _ => ?_
    split
    · exact Grows.pure (.other hnone)
    · refine ((hasNames_law _).claimed _ _).bind fun _ name _ _ => ?_
      exact ((hasNames_law _).insertModel ⟨_, _, _, .alias type, _⟩ trivial).bind
        fun _ _ _ _ => Grows.pure (.other hnone)

theorem variantsOf_keepsNames (model location : String) (position : Nat)
    (alternatives : List Site) :
    KeepsNames names (variantsOf setting recur model location position alternatives)
      (List.Forall₂ (IsVariantFor names) alternatives) := by
  induction alternatives generalizing position with
  | nil => exact Grows.pure .nil
  | cons alternative rest ih =>
    refine (variantOf_keepsNames hrecur model location position alternative).bind
      fun _ variant _ hvariant => ?_
    exact (ih (position + 1)).bind fun _ variants _ hvariants =>
      Grows.pure (.cons hvariant hvariants)

theorem shapeOf_keepsNames (name : String) (schema : Site) (location : String)
    (hnames : ∀ raw, names.has raw = Entries.has setting.document.schemas raw) :
    KeepsNames names (shapeOf setting recur name schema location)
      (ShapeTellsApart setting.document names schema) := by
  have law := hasNames_law names
  rw [shapeOf_eq]
  cases shapeKind schema with
  | reference reference =>
    exact (law.refType (covers_all _) (fun site _ => hrecur site) reference name location).bind
      fun _ _ _ _ => Grows.pure (by simp [ShapeTellsApart])
  | enum values => exact Grows.pure (by simp [ShapeTellsApart])
  | record =>
    exact (law.fieldsOf (fun site _ => hrecur site) name location _ _ fun _ _ => trivial).bind
      fun _ _ _ _ => Grows.pure (by simp [ShapeTellsApart])
  | union alternatives _ _ _ halternatives =>
    refine (variantsOf_keepsNames hrecur name location 1 alternatives).bind
      fun _ variants _ hvariants => ?_
    refine Grows.get_bind ?_
    rintro state rfl
    refine Grows.pure ?_
    intro _ discriminator heq
    obtain ⟨hshape, hdiscriminator⟩ := Prod.mk.inj heq
    obtain rfl := Shape.union.inj hshape
    exact tellsApart_of_discriminatorOf? hnames halternatives hvariants hdiscriminator
  | empty => exact Grows.pure (by simp [ShapeTellsApart])
  | type =>
    exact (hrecur schema name location).bind fun _ _ _ _ =>
      Grows.pure (by simp [ShapeTellsApart])

theorem modelOf_keepsNames (name raw : String) (schema : Site) (location : String)
    (hnames : ∀ raw, names.has raw = Entries.has setting.document.schemas raw) :
    KeepsNames names (modelOf setting recur name raw schema location) fun model =>
      ShapeTellsApart setting.document names schema (model.shape, model.discriminator) :=
  (shapeOf_keepsNames hrecur name schema location hnames).bind fun _ _ _ hshape =>
    Grows.pure hshape

end Steps

/-! ## Unions of an interface -/

def IsModelOf (setting : Setting) (api : Api) (final : State) (raw name : String) : Prop :=
  ∃ schema model, (raw, schema) ∈ setting.document.schemas ∧ model ∈ api.models.models ∧
    model.name = name ∧
      LoweredAt setting (typeOf setting setting.depth) final (raw, schema) model

/-- A model is what a schema gives: a named schema gives its own model, and a schema of the document
that a question of the run is about gives a model that no named schema has. -/
inductive IsMadeFrom (setting : Setting) (questions : List Question) (final : State)
    (schema : Site) (model : Model) : Prop
  | declared {raw : String} (hmem : (raw, schema) ∈ setting.document.schemas)
      (hlowered : LoweredAt setting (typeOf setting setting.depth) final (raw, schema) model)
  | hoisted {question : Question} {after : State} (hasked : question ∈ questions)
      (habout : question.site = schema) (hsite : schema ∈ setting.document.tree.sites)
      (hother : ∀ raw, final.schemaNames.get? raw ≠ some model.name)
      (hlater : Earlier after final) (hhoisted : HoistedAt setting question after model)

namespace Account

variable {setting : Setting} {api : Api} {declared added : List Model} {claimed : List Naming}
  {final : State} (h : Account setting api declared added claimed final)
include h

/-- At the end the names of the schemas are those of their models. -/
theorem get?_schemaNames_iff {raw name : String} :
    final.schemaNames.get? raw = some name ↔ IsModelOf setting api final raw name := by
  constructor
  · intro hget
    have hmem := Entries.mem_of_get?_eq_some hget
    rw [h.schemaNames] at hmem
    obtain ⟨model, hmodel, heq⟩ := List.mem_map.1 hmem
    obtain ⟨rfl, rfl⟩ := Prod.mk.inj heq
    obtain ⟨⟨raw, schema⟩, hschema, hlowered⟩ :=
      Outcomes.exists_of_mem_of_forall₂ h.lowered hmodel
    obtain rfl : model.rawName = raw := hlowered.rawName
    exact ⟨schema, model, hschema, h.models ▸ List.mem_append_left _ hmodel, rfl, hlowered⟩
  · rintro ⟨schema, model, -, -, rfl, hlowered⟩
    exact hlowered.schemaName

/-- At the end all schemas have names, and nothing else has. -/
theorem has_schemaNames (raw : String) :
    final.schemaNames.has raw = Entries.has setting.document.schemas raw := by
  have hkeys : final.schemaNames.keys = Entries.keys setting.document.schemas := by
    rw [h.schemaNames, Entries.keys, Entries.keys, List.map_map, ← List.forall₂_eq_eq_eq,
      List.forall₂_map_left_iff, List.forall₂_map_right_iff]
    exact (h.lowered.imp fun _ _ hlowered => hlowered.rawName).flip
  rw [Entries.has, Entries.has, Bool.eq_iff_iff, Entries.isSome_get?_iff, Entries.isSome_get?_iff,
    hkeys]

/-- A model that was made on the way has the name of no schema. -/
theorem get?_schemaNames_ne {model : Model} (hmodel : model ∈ added) (raw : String) :
    final.schemaNames.get? raw ≠ some model.name := by
  intro hget
  have hmem := Entries.mem_of_get?_eq_some hget
  rw [h.schemaNames] at hmem
  obtain ⟨other, hother, heq⟩ := List.mem_map.1 hmem
  have honce : api.models.names.Nodup := (List.nodup_append.1 h.nodup_types).1
  rw [ModelTable.names, h.models, List.map_append] at honce
  exact (List.nodup_append.1 honce).2.2 other.name (List.mem_map_of_mem hother) model.name
    (List.mem_map_of_mem hmodel) (Prod.mk.inj heq).2

/-- A model that a schema gives by way of its own shape tells apart the variants of the schema. -/
theorem tellsApart_of_run {depth : Nat} {name raw location : String} {schema : Site}
    {before after : State} {model : Model} (hearlier : Earlier before final)
    (hrun : (modelOf setting (typeOf setting depth) name raw schema location).run before =
      some (model, after)) {variants : List String} (hshape : model.shape = .union variants)
    {discriminator : Discriminator} (hdiscriminator : model.discriminator = some discriminator) :
    TellsApart setting.document (IsModelOf setting api final) schema variants discriminator := by
  have hnames : (fun raw name => final.schemaNames.get? raw = some name) =
      IsModelOf setting api final := by
    funext raw name
    exact propext h.get?_schemaNames_iff
  have hkeeps := modelOf_keepsNames (typeOf_keepsNames setting _ depth) name raw schema location
    h.has_schemaNames
  obtain ⟨-, -, -, hresult⟩ := hkeeps.result hearlier.schemaNames.symm hrun
  exact hnames ▸ hresult variants discriminator (by rw [hshape, hdiscriminator])

/-- A union with a discriminator tells apart the variants that its own schema lists, whichever
schema this is. -/
theorem tellsApart {questions : List Question} {schema : Site} {model : Model}
    (hmade : IsMadeFrom setting questions final schema model) {variants : List String}
    (hshape : model.shape = .union variants) {discriminator : Discriminator}
    (hdiscriminator : model.discriminator = some discriminator) :
    TellsApart setting.document (IsModelOf setting api final) schema variants discriminator := by
  cases hmade with
  | declared _ hlowered =>
    obtain ⟨before, after, hrun, hbefore, hafter⟩ := hlowered.made
    exact h.tellsApart_of_run (hbefore.trans hafter) hrun hshape hdiscriminator
  | hoisted _ habout _ _ hlater hhoisted =>
    obtain ⟨claimed, placed, filled, -, -, hrun, -, hplaced, hfilled⟩ := hhoisted.made
    subst habout
    exact h.tellsApart_of_run (hplaced.trans (hfilled.trans hlater)) hrun hshape hdiscriminator

/-- A model of a run that is a union is made from a schema. -/
theorem exists_isMadeFrom {questions : List Question}
    (hsites : ∀ question ∈ questions, question.site ∈ setting.document.tree.sites)
    (hadded : ∀ model ∈ added, Made setting (· ∈ questions) final model) {model : Model}
    (hmodel : model ∈ api.models.models) {variants : List String}
    (hshape : model.shape = .union variants) :
    ∃ schema, IsMadeFrom setting questions final schema model := by
  rw [h.models] at hmodel
  obtain hmodel | hmodel := List.mem_append.1 hmodel
  · obtain ⟨⟨raw, schema⟩, hmem, hlowered⟩ := Outcomes.exists_of_mem_of_forall₂ h.lowered hmodel
    exact ⟨schema, .declared hmem hlowered⟩
  · obtain ⟨question, after, hasked, hlater, hhoisted | haliased⟩ := hadded model hmodel
    · exact ⟨question.site, .hoisted hasked rfl (hsites question hasked)
        (h.get?_schemaNames_ne hmodel) hlater hhoisted⟩
    · obtain ⟨type, found, -, -, -, -, heq⟩ := haliased.made
      rw [heq] at hshape
      cases hshape

end Account

end Lowering

end ServantGen
