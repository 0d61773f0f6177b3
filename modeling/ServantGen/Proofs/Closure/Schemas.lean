import ServantGen.Lowering.Models
import ServantGen.Proofs.Closure.Inventory
import ServantGen.Proofs.Lowering.Kinds

/-!
# Schemas mention known models and enumerations only

Each step of the recursion on schemas keeps the state within an inventory and answers something
that mentions the inventory only, provided that the way of finding the types of other schemas
does. The depth of the recursion then plays no part, and the named schemas follow.
-/

namespace ServantGen.Lowering

/-- A way of finding types that answers types within the inventory. -/
def ClosedFinder (find : TypeFinder) : Prop :=
  ∀ known site hint location, Grows Fits known (find site hint location) ClosedType

section Steps

variable {setting : Setting} {recur : TypeFinder} {known : Inventory}

/-- A reference to a named schema leads to a model. -/
theorem Fits.schemaModel? {state : State} (h : Fits known state) {reference model : String}
    (hmodel : schemaModel? state.schemaNames reference = some model) : model ∈ known.models := by
  obtain ⟨raw, -, hraw⟩ := Option.bind_eq_some_iff.1 hmodel
  exact h.schemas raw model hraw

theorem refType_grows (hrecur : ClosedFinder recur) (reference hint location : String) :
    Grows Fits known (refType setting recur reference hint location) ClosedType := by
  refine Grows.get_bind ?_
  intro state hfits
  cases hmodel : schemaModel? state.schemaNames reference with
  | some model => exact Grows.pure (.named (hfits.schemaModel? hmodel))
  | none =>
    simp only
    cases Pointer.find? setting.document.tree reference with
    | none =>
      exact remarked_grows _ _ fun more => .primitive more .any
    | some target =>
      simp only
      split
      · exact remarked_grows _ _ fun more => .primitive more .any
      · -- The count of open references is no part of what an inventory speaks of.
        refine Grows.modify_bind (fun _ hstate => hstate.of_eq rfl rfl rfl) ?_
        refine (hrecur known target hint location).bind ?_
        intro more type _ htype
        refine Grows.modify_bind (fun _ hstate => hstate.of_eq rfl rfl rfl) ?_
        exact Grows.pure htype

theorem fieldsOf_grows (hrecur : ClosedFinder recur) (model location : String)
    (required : List String) (scope : NameScope) (properties : List (String × Site)) :
    Grows Fits known (fieldsOf setting recur model location required scope properties)
      fun more fields => ∀ field ∈ fields, ClosedType more field.type := by
  induction properties generalizing known scope with
  | nil => exact Grows.pure (by simp)
  | cons property rest ih =>
    obtain ⟨raw, property⟩ := property
    refine (noted_grows _ _).bind ?_
    intro known _ _ _
    refine (hrecur known property _ _).bind ?_
    intro more type _ htype
    refine (ih _).bind ?_
    intro most fields hle hfields
    refine Grows.pure (List.forall_mem_cons.2 ⟨?_, hfields⟩)
    have htype := htype.mono hle
    dsimp only
    split
    · exact htype
    · exact htype.orNone

theorem recordFields_grows (hrecur : ClosedFinder recur) (model : String) (schema : Site)
    (location : String) :
    Grows Fits known (recordFields setting recur model schema location)
      fun more fields => ∀ field ∈ fields, ClosedType more field.type :=
  fieldsOf_grows hrecur _ _ _ _ _

theorem variantOf_grows (hrecur : ClosedFinder recur) (model location : String) (position : Nat)
    (alternative : Site) :
    Grows Fits known (variantOf setting recur model location position alternative)
      fun more variant => variant.model ∈ more.models := by
  refine Grows.get_bind ?_
  intro state hfits
  split
  · rename_i variant hvariant
    obtain ⟨reference, -, htarget⟩ := Option.bind_eq_some_iff.1 hvariant
    obtain ⟨target, hmodel, rfl⟩ := Option.map_eq_some_iff.1 htarget
    exact Grows.pure (hfits.schemaModel? hmodel)
  · refine (hrecur known alternative _ location).bind ?_
    intro more type _ htype
    split
    · rename_i target
      exact Grows.pure (htype.models target (by simp))
    · -- A type that is no model becomes the alias of a new name.
      refine Grows.newModel (fun _ => rfl) ?_ ?_
      · intro name
        refine ⟨?_, by simp [ClosedTargets]⟩
        exact ClosedType.mono (more.le_addModel name) htype
      · intro most name _ hname
        exact Grows.pure hname

theorem variantsOf_grows (hrecur : ClosedFinder recur) (model location : String) (position : Nat)
    (alternatives : List Site) :
    Grows Fits known (variantsOf setting recur model location position alternatives)
      fun more variants => ∀ variant ∈ variants, variant.model ∈ more.models := by
  induction alternatives generalizing known position with
  | nil => exact Grows.pure (by simp)
  | cons alternative rest ih =>
    refine (variantOf_grows hrecur model location position alternative).bind ?_
    intro more variant _ hvariant
    refine (ih (position + 1)).bind ?_
    intro most variants hle hvariants
    exact Grows.pure (List.forall_mem_cons.2 ⟨hle.1 hvariant, hvariants⟩)

/-- A discriminator selects models of named schemas or variants of its union. -/
theorem closedTargets_discriminatorOf? {state : State} (hfits : Fits known state) (schema : Site)
    {variants : List Variant} (hvariants : ∀ variant ∈ variants, variant.model ∈ known.models) :
    ClosedTargets known (discriminatorOf? state.schemaNames schema variants) := by
  intro d hd entry hentry
  unfold discriminatorOf? at hd
  simp only [Option.bind_eq_bind, Option.mem_def, Option.bind_eq_some_iff, Option.pure_def,
    Option.some.injEq] at hd
  obtain ⟨node, -, property, -, rfl⟩ := hd
  dsimp only at hentry
  split at hentry
  · obtain ⟨⟨tag, target⟩, -, hmodel⟩ := List.mem_filterMap.1 hentry
    simp only [Option.bind_eq_some_iff, Option.some.injEq] at hmodel
    obtain ⟨text, -, model, hmodel, rfl⟩ := hmodel
    obtain hmodel | ⟨-, hmodel⟩ := Option.or_eq_some_iff.1 hmodel
    · exact hfits.schemaModel? hmodel
    · exact hfits.schemas text model hmodel
  · obtain ⟨variant, hvariant, hname⟩ := List.mem_filterMap.1 hentry
    obtain ⟨name, -, rfl⟩ := Option.map_eq_some_iff.1 hname
    exact hvariants variant hvariant

theorem shapeOf_grows (hrecur : ClosedFinder recur) (name : String) (schema : Site)
    (location : String) :
    Grows Fits known (shapeOf setting recur name schema location)
      fun more result => ClosedShape more result.1 ∧ ClosedTargets more result.2 := by
  have hnone : ∀ more : Inventory, ClosedTargets more none := by simp [ClosedTargets]
  rw [shapeOf_eq]
  cases shapeKind schema with
  | reference reference =>
    refine (refType_grows hrecur reference name location).bind ?_
    intro more type _ htype
    exact Grows.pure ⟨htype, hnone more⟩
  | enum values => exact Grows.pure ⟨trivial, hnone known⟩
  | record =>
    refine (recordFields_grows hrecur name schema location).bind ?_
    intro more fields _ hfields
    exact Grows.pure ⟨hfields, hnone more⟩
  | union alternatives =>
    refine (variantsOf_grows hrecur name location 1 alternatives).bind ?_
    intro more variants _ hvariants
    refine Grows.get_bind ?_
    intro state hfits
    refine Grows.pure ⟨?_, closedTargets_discriminatorOf? hfits schema hvariants⟩
    intro model hmodel
    obtain ⟨variant, hvariant, rfl⟩ := List.mem_map.1 hmodel
    exact hvariants variant hvariant
  | empty => exact Grows.pure ⟨by simp [ClosedShape], hnone known⟩
  | type =>
    refine (hrecur known schema name location).bind ?_
    intro more type _ htype
    exact Grows.pure ⟨htype, hnone more⟩

theorem modelOf_grows (hrecur : ClosedFinder recur) (name raw : String) (schema : Site)
    (location : String) :
    Grows Fits known (modelOf setting recur name raw schema location)
      fun more model => model.name = name ∧ ClosedModel more model := by
  refine (shapeOf_grows hrecur name schema location).bind ?_
  rintro more ⟨shape, discriminator⟩ _ ⟨hshape, htargets⟩
  exact Grows.pure ⟨rfl, hshape, htargets⟩

theorem hoist_grows (hrecur : ClosedFinder recur) (schema : Site) (hint location : String) :
    Grows Fits known (hoist setting recur schema hint location) ClosedType := by
  refine Grows.newModel (fun _ => rfl) ?_ ?_
  · intro name
    exact .placeholder (known.addModel name) name hint
  · intro more name _ hname
    refine (modelOf_grows hrecur name hint schema location).bind ?_
    rintro most model hle ⟨rfl, hmodel⟩
    refine (insertModel_grows (hle.1 hname) hmodel).bind ?_
    intro all _ hall _
    exact Grows.pure (.named (hall.1 (hle.1 hname)))

theorem plainType_grows (hrecur : ClosedFinder recur) (schema : Site) (hint location : String) :
    Grows Fits known (plainType recur schema hint location) ClosedType := by
  rw [plainType_eq]
  cases plainKind schema with
  | array items =>
    refine (hrecur known items _ location).bind ?_
    intro more type _ htype
    exact Grows.pure htype.array
  | anyArray => exact remarked_grows _ _ fun more => (ClosedType.primitive more .any).array
  | map value =>
    refine (hrecur known value _ location).bind ?_
    intro more type _ htype
    exact Grows.pure htype.map
  | anyMap => exact Grows.pure (ClosedType.primitive known .any).map
  | any => exact Grows.pure (.primitive known .any)
  | primitive type kind => exact Grows.pure (.primitive known kind)
  | unknown type => exact remarked_grows _ _ fun more => .primitive more .any

theorem coreType_grows (hrecur : ClosedFinder recur) (schema : Site) (hint location : String) :
    Grows Fits known (coreType setting recur schema hint location) ClosedType := by
  rw [coreType_eq]
  cases typeKind schema with
  | reference reference => exact refType_grows hrecur reference hint location
  | enum values =>
    refine Grows.newEnum values ?_
    intro more name _ hname
    exact Grows.pure (.enum hname)
  | object => exact hoist_grows hrecur schema hint location
  | part part => exact hrecur known part hint location
  | plain => exact plainType_grows hrecur schema hint location

theorem typeStep_grows (hrecur : ClosedFinder recur) (schema : Site) (hint location : String) :
    Grows Fits known (typeStep setting recur schema hint location) ClosedType := by
  refine (coreType_grows hrecur schema hint location).bind ?_
  intro more type _ htype
  refine Grows.pure ?_
  split
  · exact htype.orNone
  · exact htype

end Steps

/-- Whatever the depth, types are found within the inventory. -/
theorem closedFinder_typeOf (setting : Setting) (depth : Nat) :
    ClosedFinder (typeOf setting depth) := by
  induction depth with
  | zero =>
    intro known site hint location state _
    exact trivial
  | succ depth ih =>
    intro known site hint location
    exact typeStep_grows ih site hint location

/-! ## Named schemas -/

/-- Before any schema is lowered there are models but no enumerations. -/
def FitsDeclared (known : Inventory) (state : State) : Prop :=
  known.enums = ∅ ∧ Fits known state

theorem fitsDeclared_initial : FitsDeclared .empty .initial where
  left := rfl
  right := by
    constructor <;>
      simp [Inventory.empty, State.initial, ModelTable.empty, ModelTable.names, NameBook.empty,
        NameScope.empty, NameScope.get?, Entries.get?]

theorem declareModel_grows (setting : Setting) (raw : String) (known : Inventory) :
    Grows FitsDeclared known (declareModel setting raw) fun _ _ => True := by
  intro state ⟨henums, hfits⟩
  refine Contract.bind (claimType_taken setting raw (schemaLocation raw)) ?_ state hfits
  rintro name middle ⟨hmiddle, htaken⟩
  have hnone : ∀ entry ∈ known.enums, entry.1 ≠ name := by
    intro entry hentry
    rw [henums] at hentry
    exact absurd hentry (Set.notMem_empty entry)
  have hplaced := @Fits.insert known middle (placeholder name raw) hmiddle htaken hnone
    (.placeholder _ name raw)
  exact ⟨known.addModel name, known.le_addModel name,
    ⟨henums, hplaced.putSchema (.inl rfl)⟩, trivial⟩

theorem declareModels_grows (setting : Setting) (known : Inventory) :
    Grows FitsDeclared known (declareModels setting) fun _ _ => True :=
  Grows.forM fun schema _ more _ => declareModel_grows setting schema.1 more

theorem lowerModel_grows {setting : Setting} {find : TypeFinder} (hfind : ClosedFinder find)
    (raw : String) (schema : Site) (known : Inventory) :
    Grows Fits known (lowerModel setting find raw schema) fun _ _ => True := by
  refine Grows.get_bind ?_
  intro state hfits
  cases hname : state.schemaNames.get? raw with
  | none => exact Grows.pure trivial
  | some name =>
    refine (modelOf_grows hfind name raw schema (schemaLocation raw)).bind ?_
    rintro more model hle ⟨rfl, hmodel⟩
    exact insertModel_grows (hle.1 (hfits.schemas raw _ hname)) hmodel

theorem lowerModels_grows {setting : Setting} {find : TypeFinder} (hfind : ClosedFinder find)
    (known : Inventory) :
    Grows Fits known (lowerModels setting find) fun _ _ => True :=
  Grows.forM fun schema _ more _ => lowerModel_grows hfind schema.1 schema.2 more

end ServantGen.Lowering
