import ServantGen.Proofs.Ledger.Schemas
import ServantGen.Proofs.Lowering.Kinds
import ServantGen.Proofs.Lowering.TwoRuns
import ServantGen.Proofs.Renaming.Interfaces

/-!
# Types and models for two targets

A document is lowered for two targets, side by side. Whenever one side claims a new name so does
the other, and the two names are paired; nothing else that lowering does looks at a name, except
that a name finds its model in the table, which pairs of names do on both sides or on neither. So
what was paired stays paired, and types and models correspond however deep the recursion goes.
-/

namespace ServantGen.Lowering

/-- The names that were paired so far. -/
structure Renamings where
  types : Renaming
  functions : Renaming

namespace Renamings

/-- More is known when more types and more functions are paired. -/
instance : Preorder Renamings := Preorder.lift fun known => (known.types, known.functions)

def empty : Renamings := ⟨.empty, .empty⟩

end Renamings

/-- Two states that differ in names, and in what there is to remark on them. -/
structure Paired (known : Renamings) (state state' : State) : Prop where
  types : known.types.HeldIn state.names.types state'.names.types
  functions : known.functions.HeldIn state.names.functions state'.names.functions
  models : List.Forall₂ (Model.Alike known.types) state.models.models state'.models.models
  schemaNames : Entries.Alike known.types state.schemaNames state'.schemaNames
  inlineDepth : state'.inlineDepth = state.inlineDepth

theorem paired_initial : Paired .empty .initial .initial where
  types := Renaming.heldIn_empty _ _
  functions := Renaming.heldIn_empty _ _
  models := .nil
  schemaNames := .nil
  inlineDepth := rfl

variable {document : Document} {target target' : Target} {known : Renamings} {state state' : State}

/-! ## Names and the table -/

/-- Notices are not compared. -/
theorem remark_together (subject subject' : Remark) (location location' : String) :
    Together Paired known (remark subject location) (remark subject' location')
      fun _ _ _ => True :=
  Together.modify (fun _ _ h => ⟨h.types, h.functions, h.models, h.schemaNames, h.inlineDepth⟩)
    trivial

/-- The same answer after a remark. -/
theorem remarked_together {α : Type} {post : Renamings → α → α → Prop} {value value' : α}
    (subject subject' : Remark) (location location' : String)
    (h : ∀ more, known ≤ more → post more value value') :
    Together Paired known (do remark subject location; return value)
      (do remark subject' location'; return value') post :=
  (remark_together subject subject' location location').bind fun more _ _ hle _ =>
    Together.pure (h more hle)

theorem insertModel_together {model model' : Model} (h : model.Alike known.types model') :
    Together Paired known (insertModel model) (insertModel model') fun _ _ _ => True :=
  Together.modify (fun _ _ hpaired => { hpaired with
    models := ModelTable.alike_insertInto hpaired.models h }) trivial

theorem modify_inlineDepth_together (change : Nat → Nat) :
    Together Paired known
      (modify fun state => { state with inlineDepth := change state.inlineDepth } : SchemaM PUnit)
      (modify fun state => { state with inlineDepth := change state.inlineDepth })
      fun _ _ _ => True :=
  Together.modify (fun _ _ h => { h with inlineDepth := congrArg change h.inlineDepth }) trivial

/-- An identifier is answered as it is. -/
theorem noted_together {names : Renaming} {identifier identifier' : Identifier}
    (location location' : String) (h : names.pairs identifier.name identifier'.name) :
    Together Paired known (noted identifier location) (noted identifier' location')
      fun _ => names.pairs := by
  intro state state' hpaired _ _ hrun hrun'
  obtain rfl := Option.some.inj ((noted_run identifier location state).symm.trans hrun)
  obtain rfl := Option.some.inj ((noted_run identifier' location' state').symm.trans hrun')
  exact ⟨known, le_rfl, ⟨hpaired.types, hpaired.functions, hpaired.models, hpaired.schemaNames,
    hpaired.inlineDepth⟩, h⟩

/-- What was paired stays paired when more type names are. -/
theorem Paired.claimTypes (h : Paired known state state') {types : Renaming}
    (hle : known.types ≤ types) {scope scope' : NameScope} (hheld : types.HeldIn scope scope')
    (notices notices' : List Notice) :
    Paired ⟨types, known.functions⟩
      { state with names := { state.names with types := scope }, notices }
      { state' with names := { state'.names with types := scope' }, notices := notices' } where
  types := hheld
  functions := h.functions
  models := h.models.imp fun _ _ h => h.mono hle
  schemaNames := h.schemaNames.mono hle
  inlineDepth := h.inlineDepth

/-- New type names are paired, whatever they were asked for. -/
theorem freshType_together (hint hint' location location' : String) :
    Together Paired known (freshType ⟨document, target⟩ hint location)
      (freshType ⟨document, target'⟩ hint' location') fun more => more.types.pairs := by
  intro state state' hpaired _ _ hrun hrun'
  obtain rfl := Option.some.inj ((claimed_run _ location state).symm.trans hrun)
  obtain rfl := Option.some.inj ((claimed_run _ location' state').symm.trans hrun')
  obtain ⟨types, hle, hheld, hpair⟩ := hpaired.types.claimFresh target.reserved
    target'.reserved hint hint' (target.identifier .type hint) (target'.identifier .type hint')
  exact ⟨⟨types, known.functions⟩, ⟨hle, le_rfl⟩, hpaired.claimTypes hle hheld _ _, hpair⟩

theorem freshFunction_together (raw raw' location location' : String) :
    Together Paired known (freshFunction ⟨document, target⟩ raw location)
      (freshFunction ⟨document, target'⟩ raw' location') fun more => more.functions.pairs := by
  intro state state' hpaired _ _ hrun hrun'
  obtain rfl := Option.some.inj ((claimed_run _ location state).symm.trans hrun)
  obtain rfl := Option.some.inj ((claimed_run _ location' state').symm.trans hrun')
  obtain ⟨functions, hle, hheld, hpair⟩ := hpaired.functions.claimFresh target.reserved
    target'.reserved raw raw' (target.identifier .function raw) (target'.identifier .function raw')
  exact ⟨⟨known.types, functions⟩, ⟨le_rfl, hle⟩, { hpaired with functions := hheld }, hpair⟩

/-! ## Steps of the recursion -/

/-- Ways of finding types whose answers are alike, whatever hints they are given. -/
def FindTogether (recur recur' : TypeFinder) : Prop :=
  ∀ known site hint hint' location, Together Paired known (recur site hint location)
    (recur' site hint' location) fun more => DataType.Alike more.types

theorem schemaModel?_alike {types : Renaming} {names names' : Entries String}
    (h : Entries.Alike types names names') (reference : String) :
    Option.Rel types.pairs (schemaModel? names reference) (schemaModel? names' reference) := by
  unfold schemaModel?
  cases namedSchema? reference with
  | none => exact .none
  | some name => exact h.get? name

section Steps

variable {recur recur' : TypeFinder} (hrecur : FindTogether recur recur')
include hrecur

theorem refType_together (reference hint hint' location : String) :
    Together Paired known (refType ⟨document, target⟩ recur reference hint location)
      (refType ⟨document, target'⟩ recur' reference hint' location)
      fun more => DataType.Alike more.types := by
  refine Together.get_bind fun state state' hpaired => ?_
  have hmodel := schemaModel?_alike hpaired.schemaNames reference
  generalize schemaModel? state.schemaNames reference = model at hmodel
  generalize schemaModel? state'.schemaNames reference = model' at hmodel
  cases hmodel with
  | some hpair => exact Together.pure (.named hpair)
  | none =>
    dsimp only
    rw [hpaired.inlineDepth]
    split
    · exact remarked_together _ _ _ _ fun _ _ => .primitive .any
    · split
      · exact remarked_together _ _ _ _ fun _ _ => .primitive .any
      · refine (modify_inlineDepth_together (· + 1)).bind fun more _ _ _ _ => ?_
        refine (hrecur more _ _ _ _).bind fun most type type' _ htype => ?_
        refine (modify_inlineDepth_together (· - 1)).bind fun last _ _ hle _ => ?_
        exact Together.pure (htype.mono hle.1)

theorem fieldsOf_together (model model' location : String) (required : List String)
    {properties : List (String × Site)} {names : Renaming} {scope scope' : NameScope}
    (hscope : Unclaimed scope properties) (hscope' : Unclaimed scope' properties)
    (hheld : names.HeldIn scope scope') :
    Together Paired known
      (fieldsOf ⟨document, target⟩ recur model location required scope properties)
      (fieldsOf ⟨document, target'⟩ recur' model' location required scope' properties)
      fun more fields fields' => ∃ own, names ≤ own ∧
        List.Forall₂ (Field.Alike more.types own) fields fields' := by
  induction properties generalizing known names scope scope' with
  | nil => exact Together.pure ⟨names, le_rfl, .nil⟩
  | cons property rest ih =>
    obtain ⟨raw, property⟩ := property
    obtain ⟨hclaim, hrest⟩ := hscope.claimIn target .field
    obtain ⟨hclaim', hrest'⟩ := hscope'.claimIn target' .field
    obtain ⟨paired, hmore, hnext, hpair⟩ := hheld.claimFresh target.reserved target'.reserved raw
      raw (target.identifier .field raw) (target'.identifier .field raw)
    unfold fieldsOf
    dsimp only
    rw [hclaim, hclaim']
    refine (noted_together _ _ hpair).bind fun more name name' _ hname => ?_
    refine (hrecur more property _ _ _).bind fun most type type' _ htype => ?_
    refine (ih hrest hrest' hnext).bind ?_
    rintro last fields fields' hle ⟨own, hown, hfields⟩
    refine Together.pure ⟨own, le_trans hmore hown, .cons ?_ hfields⟩
    exact {
      name := hown _ _ hname
      rawName := rfl
      type := (htype.mono hle.1).ite_orNone _
      required := rfl
      description := rfl }

theorem recordFields_together (model model' : String) (schema : Site) (location : String) :
    Together Paired known (recordFields ⟨document, target⟩ recur model schema location)
      (recordFields ⟨document, target'⟩ recur' model' schema location)
      fun more fields fields' => ∃ own,
        List.Forall₂ (Field.Alike more.types own) fields fields' := by
  have hnew := unclaimed_properties document schema
  refine (fieldsOf_together hrecur _ _ _ _ hnew hnew (Renaming.heldIn_empty _ _)).mono_post ?_
  rintro more fields fields' - ⟨own, -, hfields⟩
  exact ⟨own, hfields⟩

omit hrecur in
structure Variant.Alike (types : Renaming) (variant variant' : Variant) : Prop where
  model : types.pairs variant.model variant'.model
  schemaName : variant'.schemaName = variant.schemaName

omit hrecur in
theorem Variant.Alike.mono {types more : Renaming} (hle : types ≤ more) {variant variant' : Variant}
    (h : variant.Alike types variant') : variant.Alike more variant' :=
  ⟨hle _ _ h.model, h.schemaName⟩

omit hrecur in
theorem namedVariant?_alike {types : Renaming} {names names' : Entries String}
    (h : Entries.Alike types names names') (alternative : Site) :
    Option.Rel (Variant.Alike types) (namedVariant? names alternative)
      (namedVariant? names' alternative) := by
  unfold namedVariant?
  cases alternative.reference? with
  | none => exact .none
  | some reference =>
    have hmodel := schemaModel?_alike h reference
    simp only [Option.bind_some]
    generalize schemaModel? names reference = model at hmodel
    generalize schemaModel? names' reference = model' at hmodel
    cases hmodel with
    | some hpair => exact .some ⟨hpair, rfl⟩
    | none => exact .none

omit hrecur in
theorem aliasVariant_together {type type' : DataType} (h : type.Alike known.types type')
    (hint hint' location : String) :
    Together Paired known (aliasVariant ⟨document, target⟩ hint location type)
      (aliasVariant ⟨document, target'⟩ hint' location type')
      fun more => Variant.Alike more.types := by
  refine (freshType_together hint hint' location location).bind fun more name name' hle hname => ?_
  have hmodel : Model.Alike more.types ⟨name, hint, none, .alias type, none⟩
      ⟨name', hint', none, .alias type', none⟩ :=
    ⟨hname, rfl, .alias (h.mono hle.1), .none⟩
  refine (insertModel_together hmodel).bind ?_
  exact fun most _ _ hmost _ => Together.pure ⟨hmost.1 _ _ hname, rfl⟩

theorem variantOf_together (model model' location : String) (position : Nat) (alternative : Site) :
    Together Paired known (variantOf ⟨document, target⟩ recur model location position alternative)
      (variantOf ⟨document, target'⟩ recur' model' location position alternative)
      fun more => Variant.Alike more.types := by
  rw [variantOf_eq, variantOf_eq]
  refine Together.get_bind fun state state' hpaired => ?_
  have hvariant := namedVariant?_alike hpaired.schemaNames alternative
  generalize namedVariant? state.schemaNames alternative = variant at hvariant
  generalize namedVariant? state'.schemaNames alternative = variant' at hvariant
  cases hvariant with
  | some h => exact Together.pure h
  | none =>
    refine (hrecur known alternative _ _ _).bind fun more type type' _ htype => ?_
    cases htype with
    | named h => exact Together.pure ⟨h, rfl⟩
    | primitive kind => exact aliasVariant_together (.primitive kind) _ _ _
    | array h => exact aliasVariant_together (.array h) _ _ _
    | map h => exact aliasVariant_together (.map h) _ _ _
    | optional h => exact aliasVariant_together (.optional h) _ _ _
    | enum h values => exact aliasVariant_together (.enum h values) _ _ _

theorem variantsOf_together (model model' location : String) (position : Nat)
    (alternatives : List Site) :
    Together Paired known (variantsOf ⟨document, target⟩ recur model location position alternatives)
      (variantsOf ⟨document, target'⟩ recur' model' location position alternatives)
      fun more => List.Forall₂ (Variant.Alike more.types) := by
  induction alternatives generalizing known position with
  | nil => exact Together.pure .nil
  | cons alternative rest ih =>
    refine (variantOf_together hrecur model model' location position alternative).bind ?_
    intro more variant variant' _ hvariant
    refine (ih (position + 1)).bind fun most variants variants' hle hvariants => ?_
    exact Together.pure (.cons (hvariant.mono hle.1) hvariants)

omit hrecur in
/-- Tags select models that correspond, whether the schema maps them or the references do. -/
theorem discriminatorOf?_alike {types : Renaming} {names names' : Entries String}
    (h : Entries.Alike types names names') (schema : Site) {variants variants' : List Variant}
    (hvariants : List.Forall₂ (Variant.Alike types) variants variants') :
    Option.Rel (Discriminator.Alike types) (discriminatorOf? names schema variants)
      (discriminatorOf? names' schema variants') := by
  unfold discriminatorOf?
  cases schema.get? "discriminator" with
  | none => exact .none
  | some node =>
    simp only [Option.bind_eq_bind, Option.bind_some]
    cases node.string? "propertyName" with
    | none => exact .none
    | some property =>
      refine .some ⟨rfl, ?_⟩
      dsimp only
      cases (node.get? "mapping").bind Site.members? with
      | none =>
        refine List.rel_filterMap (fun variant variant' hvariant => ?_) hvariants
        rw [hvariant.schemaName]
        cases variant.schemaName with
        | none => exact .none
        | some schemaName => exact .some ⟨rfl, hvariant.model⟩
      | some entries =>
        refine List.rel_filterMap (R := Eq) ?_ (List.forall₂_eq_eq_eq ▸ rfl)
        rintro ⟨tag, entry⟩ _ rfl
        dsimp only
        cases entry.node.string? with
        | none => exact .none
        | some target =>
          have hmodel := (schemaModel?_alike h target).or (h.get? target)
          simp only [Option.bind_some]
          generalize (schemaModel? names target).or (names.get? target) = model at hmodel
          generalize (schemaModel? names' target).or (names'.get? target) = model' at hmodel
          cases hmodel with
          | some hpair => exact .some ⟨rfl, hpair⟩
          | none => exact .none

theorem shapeOf_together (name name' : String) (schema : Site) (location : String) :
    Together Paired known (shapeOf ⟨document, target⟩ recur name schema location)
      (shapeOf ⟨document, target'⟩ recur' name' schema location)
      fun more result result' => result.1.Alike more.types result'.1 ∧
        Option.Rel (Discriminator.Alike more.types) result.2 result'.2 := by
  rw [shapeOf_eq, shapeOf_eq]
  cases shapeKind schema with
  | reference reference =>
    refine (refType_together hrecur reference name name' location).bind ?_
    exact fun more type type' _ htype => Together.pure ⟨.alias htype, .none⟩
  | enum values => exact Together.pure ⟨.enum values, .none⟩
  | record =>
    refine (recordFields_together hrecur name name' schema location).bind ?_
    rintro more fields fields' - ⟨own, hfields⟩
    exact Together.pure ⟨.record own hfields, .none⟩
  | union alternatives =>
    refine (variantsOf_together hrecur name name' location 1 alternatives).bind ?_
    intro more variants variants' _ hvariants
    refine Together.get_bind fun state state' hpaired => Together.pure ⟨.union ?_, ?_⟩
    · exact List.rel_map (fun _ _ h => h.model) hvariants
    · exact discriminatorOf?_alike hpaired.schemaNames schema hvariants
  | empty => exact Together.pure ⟨.record .empty .nil, .none⟩
  | type =>
    refine (hrecur known schema name name' location).bind ?_
    exact fun more type type' _ htype => Together.pure ⟨.alias htype, .none⟩

/-- Models made from one schema under names that are paired. -/
theorem modelOf_together {name name' : String} (hname : known.types.pairs name name')
    (raw raw' : String) (schema : Site) (location : String) :
    Together Paired known (modelOf ⟨document, target⟩ recur name raw schema location)
      (modelOf ⟨document, target'⟩ recur' name' raw' schema location)
      fun more => Model.Alike more.types := by
  refine (shapeOf_together hrecur name name' schema location).bind ?_
  rintro more ⟨shape, discriminator⟩ ⟨shape', discriminator'⟩ hle ⟨hshape, hdiscriminator⟩
  exact Together.pure ⟨hle.1 _ _ hname, rfl, hshape, hdiscriminator⟩

theorem hoist_together (schema : Site) (hint hint' location : String) :
    Together Paired known (hoist ⟨document, target⟩ recur schema hint location)
      (hoist ⟨document, target'⟩ recur' schema hint' location)
      fun more => DataType.Alike more.types := by
  refine (freshType_together hint hint' location location).bind fun more name name' _ hname => ?_
  have hplace : (placeholder name hint).Alike more.types (placeholder name' hint') :=
    ⟨hname, rfl, .alias (.primitive .any), .none⟩
  refine (insertModel_together hplace).bind fun placed _ _ hplaced _ => ?_
  refine (modelOf_together hrecur (hplaced.1 _ _ hname) hint hint' schema location).bind ?_
  intro made model model' hmade hmodel
  refine (insertModel_together hmodel).bind fun last _ _ hlast _ => ?_
  exact Together.pure (.named (hlast.1 _ _ (hmade.1 _ _ (hplaced.1 _ _ hname))))

theorem plainType_together (schema : Site) (hint hint' location : String) :
    Together Paired known (plainType recur schema hint location)
      (plainType recur' schema hint' location) fun more => DataType.Alike more.types := by
  rw [plainType_eq, plainType_eq]
  cases plainKind schema with
  | array items =>
    refine (hrecur known items _ _ location).bind fun more type type' _ htype => ?_
    exact Together.pure (.array htype)
  | anyArray => exact remarked_together _ _ _ _ fun _ _ => .array (.primitive .any)
  | map value =>
    refine (hrecur known value _ _ location).bind fun more type type' _ htype => ?_
    exact Together.pure (.map htype)
  | anyMap => exact Together.pure (.map (.primitive .any))
  | any => exact Together.pure (.primitive .any)
  | primitive type kind => exact Together.pure (.primitive kind)
  | unknown type => exact remarked_together _ _ _ _ fun _ _ => .primitive .any

theorem coreType_together (schema : Site) (hint hint' location : String) :
    Together Paired known (coreType ⟨document, target⟩ recur schema hint location)
      (coreType ⟨document, target'⟩ recur' schema hint' location)
      fun more => DataType.Alike more.types := by
  rw [coreType_eq, coreType_eq]
  cases typeKind schema with
  | reference reference => exact refType_together hrecur reference hint hint' location
  | enum values =>
    refine (freshType_together hint hint' location location).bind ?_
    exact fun more name name' _ hname => Together.pure (.enum hname values)
  | object => exact hoist_together hrecur schema hint hint' location
  | part part => exact hrecur known part hint hint' location
  | plain => exact plainType_together hrecur schema hint hint' location

theorem typeStep_together :
    FindTogether (typeStep ⟨document, target⟩ recur) (typeStep ⟨document, target'⟩ recur') := by
  intro known schema hint hint' location
  refine (coreType_together hrecur schema hint hint' location).bind ?_
  intro more type type' _ htype
  refine Together.pure ?_
  split
  · exact htype.orNone
  · exact htype

end Steps

/-- The types that both find are alike, by induction on the depth of the recursion. -/
theorem typeOf_together (depth : Nat) :
    FindTogether (typeOf ⟨document, target⟩ depth) (typeOf ⟨document, target'⟩ depth) := by
  induction depth with
  | zero => exact fun _ _ _ _ _ _ _ _ _ _ hrun => nomatch hrun
  | succ depth ih => exact typeStep_together ih

/-! ## Named schemas -/

/-- While schemas are declared, the first names of raw names are paired as well. -/
structure PairedFirst (known : Renamings) (state state' : State) : Prop
    extends Paired known state state' where
  first : Entries.Alike known.types state.names.types.firstNames state'.names.types.firstNames

theorem pairedFirst_initial : PairedFirst .empty .initial .initial :=
  ⟨paired_initial, .nil⟩

theorem claimType_together (raw location location' : String) :
    Together PairedFirst known (claimType ⟨document, target⟩ raw location)
      (claimType ⟨document, target'⟩ raw location') fun more => more.types.pairs := by
  intro state state' hpaired _ _ hrun hrun'
  obtain rfl := Option.some.inj ((claimed_run _ location state).symm.trans hrun)
  obtain rfl := Option.some.inj ((claimed_run _ location' state').symm.trans hrun')
  obtain ⟨types, hle, hheld, hfirst, hpair⟩ := hpaired.types.claim hpaired.first target.reserved
    target'.reserved raw (target.identifier .type raw) (target'.identifier .type raw)
  exact ⟨⟨types, known.functions⟩, ⟨hle, le_rfl⟩,
    ⟨hpaired.toPaired.claimTypes hle hheld _ _, hfirst⟩, hpair⟩

/-- A named schema gets its name and its place on both sides. -/
theorem declareModel_together (raw : String) :
    Together PairedFirst known (declareModel ⟨document, target⟩ raw)
      (declareModel ⟨document, target'⟩ raw) fun _ _ _ => True := by
  refine (claimType_together raw _ _).bind fun more name name' _ hname => ?_
  have hplace : (placeholder name raw).Alike more.types (placeholder name' raw) :=
    ⟨hname, rfl, .alias (.primitive .any), .none⟩
  have hinsert : Together PairedFirst more (insertModel (placeholder name raw))
      (insertModel (placeholder name' raw)) fun _ _ _ => True :=
    Together.modify (fun _ _ h => { h with
      models := ModelTable.alike_insertInto h.models hplace }) trivial
  refine hinsert.bind fun most _ _ hle _ => Together.modify (fun _ _ h => ?_) trivial
  exact { h with schemaNames := h.schemaNames.put raw (hle.1 _ _ hname) }

theorem lowerModel_together {recur recur' : TypeFinder} (hfind : FindTogether recur recur')
    (raw : String) (schema : Site) :
    Together Paired known (lowerModel ⟨document, target⟩ recur raw schema)
      (lowerModel ⟨document, target'⟩ recur' raw schema) fun _ _ _ => True := by
  refine Together.get_bind fun state state' hpaired => ?_
  have hname := hpaired.schemaNames.get? raw
  generalize state.schemaNames.get? raw = name at hname
  generalize state'.schemaNames.get? raw = name' at hname
  cases hname with
  | none => exact Together.pure trivial
  | some hpair =>
    refine (modelOf_together hfind hpair raw raw schema _).bind ?_
    exact fun more model model' _ hmodel => insertModel_together hmodel

end ServantGen.Lowering
