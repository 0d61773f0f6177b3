import Mathlib.Data.Set.Insert
import ServantGen.Proofs.Lowering.Contract
import ServantGen.Proofs.Naming.Fresh

/-!
# What references may rely on

While a document is lowered, models are referred to before they are complete and enumerations
are named before the type that holds them is put anywhere. An inventory records both: the names
that have a place in the table, and the enumerations with their values. It only grows. A state
fits an inventory when the table has all its models, everything in the table refers to the
inventory only, and the names of models and enumerations are held and kept apart.
-/

namespace ServantGen

/-! ## Types -/

namespace DataType

@[simp] theorem models_primitive (kind : Primitive) : (primitive kind).models = [] := rfl
@[simp] theorem models_named (name : String) : (named name).models = [name] := rfl
@[simp] theorem models_enum (name : String) (values : List String) :
    (enum name values).models = [] := rfl
@[simp] theorem models_array (item : DataType) : (array item).models = item.models := rfl
@[simp] theorem models_map (value : DataType) : (map value).models = value.models := rfl
@[simp] theorem models_optional (inner : DataType) : (optional inner).models = inner.models := rfl

@[simp] theorem enums_primitive (kind : Primitive) : (primitive kind).enums = [] := rfl
@[simp] theorem enums_named (name : String) : (named name).enums = [] := rfl
@[simp] theorem enums_enum (name : String) (values : List String) :
    (enum name values).enums = [(name, values)] := rfl
@[simp] theorem enums_array (item : DataType) : (array item).enums = item.enums := rfl
@[simp] theorem enums_map (value : DataType) : (map value).enums = value.enums := rfl
@[simp] theorem enums_optional (inner : DataType) : (optional inner).enums = inner.enums := rfl

@[simp] theorem models_orNone (type : DataType) : type.orNone.models = type.models := by
  unfold orNone
  split <;> simp

@[simp] theorem enums_orNone (type : DataType) : type.orNone.enums = type.enums := by
  unfold orNone
  split <;> simp

@[simp] theorem models_stripOptional (type : DataType) :
    type.stripOptional.models = type.models := by
  cases type <;> rfl

@[simp] theorem enums_stripOptional (type : DataType) :
    type.stripOptional.enums = type.enums := by
  cases type <;> rfl

end DataType

/-! ## The table -/

namespace ModelTable

theorem contains_iff {table : ModelTable} {name : String} :
    table.contains name = true ↔ name ∈ table.names := by
  simp [contains, get?, names, List.find?_isSome]

/-- With one model for each name, every model is found under its own. -/
theorem get?_of_mem_models {table : ModelTable} (hnames : table.names.Nodup) {model : Model}
    (h : model ∈ table.models) : table.get? model.name = some model := by
  obtain ⟨models⟩ := table
  induction models with
  | nil => simp at h
  | cons first rest ih =>
    obtain ⟨hfirst, hrest⟩ := List.nodup_cons.1 hnames
    obtain rfl | h := List.mem_cons.1 h
    · simp [get?]
    · have hne : first.name ≠ model.name := fun heq => hfirst (heq ▸ List.mem_map_of_mem h)
      rw [get?, List.find?_cons_of_neg (by simpa using hne)]
      exact ih hrest h

theorem get?_eq_some_iff {table : ModelTable} (hnames : table.names.Nodup) {name : String}
    {model : Model} : table.get? name = some model ↔ model ∈ table.models ∧ model.name = name := by
  constructor
  · intro h
    exact ⟨List.mem_of_find?_eq_some h, by simpa using List.find?_some h⟩
  · rintro ⟨hmem, rfl⟩
    exact get?_of_mem_models hnames hmem

theorem mem_models_insert {table : ModelTable} {model other : Model}
    (h : other ∈ (table.insert model).models) : other = model ∨ other ∈ table.models := by
  obtain ⟨models⟩ := table
  simp only [insert] at h ⊢
  induction models with
  | nil => exact .inl (List.mem_singleton.1 h)
  | cons first rest ih =>
    unfold insertInto at h
    split at h
    · obtain rfl | h := List.mem_cons.1 h
      · exact .inl rfl
      · exact .inr (List.mem_cons_of_mem _ h)
    · obtain rfl | h := List.mem_cons.1 h
      · exact .inr List.mem_cons_self
      · exact (ih h).imp id (List.mem_cons_of_mem _)

theorem mem_names_insert {table : ModelTable} {model : Model} {name : String} :
    name ∈ (table.insert model).names ↔ name = model.name ∨ name ∈ table.names := by
  obtain ⟨models⟩ := table
  simp only [insert, names]
  induction models with
  | nil => simp [insertInto]
  | cons first rest ih =>
    unfold insertInto
    split
    · rename_i heq
      simp [heq]
    · simp only [List.map_cons, List.mem_cons, ih]
      tauto

theorem nodup_names_insert {table : ModelTable} (h : table.names.Nodup) (model : Model) :
    (table.insert model).names.Nodup := by
  obtain ⟨models⟩ := table
  simp only [insert, names] at h ⊢
  induction models with
  | nil => simp [insertInto]
  | cons first rest ih =>
    obtain ⟨hfirst, hrest⟩ := List.nodup_cons.1 h
    unfold insertInto
    split
    · rename_i heq
      rwa [List.map_cons, ← heq]
    · rename_i hne
      rw [List.map_cons, List.nodup_cons]
      refine ⟨fun hmem => ?_, ih hrest⟩
      obtain heq | hmem := (@mem_names_insert ⟨rest⟩ model first.name).1 hmem
      · exact hne heq
      · exact hfirst hmem

/-- A table that models are inserted into has one for each name. -/
theorem nodup_names_ofModels (models : List Model) : (ofModels models).names.Nodup := by
  have hinsert : ∀ table : ModelTable, table.names.Nodup →
      (models.foldl insert table).names.Nodup := by
    induction models with
    | nil => exact fun _ h => h
    | cons model models ih => exact fun _ h => ih _ (nodup_names_insert h model)
  exact hinsert empty List.nodup_nil

end ModelTable

namespace Lowering

/-! ## Inventories -/

/-- The models that have a place and the enumerations that have a name. -/
structure Inventory where
  models : Set String
  enums : Set (String × List String)

namespace Inventory

instance : Preorder Inventory where
  le known more := known.models ⊆ more.models ∧ known.enums ⊆ more.enums
  le_refl _ := ⟨subset_rfl, subset_rfl⟩
  le_trans _ _ _ h₁ h₂ := ⟨h₁.1.trans h₂.1, h₁.2.trans h₂.2⟩

def empty : Inventory := ⟨∅, ∅⟩

def addModel (known : Inventory) (name : String) : Inventory :=
  { known with models := insert name known.models }

def addEnum (known : Inventory) (name : String) (values : List String) : Inventory :=
  { known with enums := insert (name, values) known.enums }

theorem le_addModel (known : Inventory) (name : String) : known ≤ known.addModel name :=
  ⟨Set.subset_insert name known.models, subset_rfl⟩

theorem le_addEnum (known : Inventory) (name : String) (values : List String) :
    known ≤ known.addEnum name values :=
  ⟨subset_rfl, Set.subset_insert (name, values) known.enums⟩

theorem addModel_of_mem {known : Inventory} {name : String} (h : name ∈ known.models) :
    known.addModel name = known := by
  simp [addModel, Set.insert_eq_of_mem h]

end Inventory

variable {known more : Inventory}

structure ClosedType (known : Inventory) (type : DataType) : Prop where
  models : ∀ name ∈ type.models, name ∈ known.models
  enums : ∀ entry ∈ type.enums, entry ∈ known.enums

namespace ClosedType

variable {type : DataType}

theorem mono (hle : known ≤ more) (h : ClosedType known type) : ClosedType more type :=
  ⟨fun name hname => hle.1 (h.models name hname), fun entry hentry => hle.2 (h.enums entry hentry)⟩

theorem primitive (known : Inventory) (kind : Primitive) : ClosedType known (.primitive kind) :=
  ⟨by simp, by simp⟩

theorem named {name : String} (h : name ∈ known.models) : ClosedType known (.named name) :=
  ⟨by simpa using h, by simp⟩

theorem enum {name : String} {values : List String} (h : (name, values) ∈ known.enums) :
    ClosedType known (.enum name values) :=
  ⟨by simp, by simpa using h⟩

theorem array (h : ClosedType known type) : ClosedType known (.array type) := ⟨h.models, h.enums⟩

theorem map (h : ClosedType known type) : ClosedType known (.map type) := ⟨h.models, h.enums⟩

theorem orNone (h : ClosedType known type) : ClosedType known type.orNone :=
  ⟨by simpa using h.models, by simpa using h.enums⟩

end ClosedType

def ClosedShape (known : Inventory) : Shape → Prop
  | .record fields => ∀ field ∈ fields, ClosedType known field.type
  | .enum _ => True
  | .union variants => ∀ name ∈ variants, name ∈ known.models
  | .alias type => ClosedType known type

theorem ClosedShape.mono {shape : Shape} (hle : known ≤ more) (h : ClosedShape known shape) :
    ClosedShape more shape := by
  cases shape with
  | record fields => exact fun field hfield => (h field hfield).mono hle
  | enum values => trivial
  | union variants => exact fun name hname => hle.1 (h name hname)
  | «alias» type => exact ClosedType.mono hle h

/-- The models that a discriminator selects. -/
def ClosedTargets (known : Inventory) (discriminator : Option Discriminator) : Prop :=
  ∀ d ∈ discriminator, ∀ entry ∈ d.mapping, entry.2 ∈ known.models

structure ClosedModel (known : Inventory) (model : Model) : Prop where
  shape : ClosedShape known model.shape
  targets : ClosedTargets known model.discriminator

namespace ClosedModel

variable {model : Model}

theorem mono (hle : known ≤ more) (h : ClosedModel known model) : ClosedModel more model :=
  ⟨h.shape.mono hle, fun d hd entry hentry => hle.1 (h.targets d hd entry hentry)⟩

/-- A model that holds a place mentions nothing. -/
theorem placeholder (known : Inventory) (name raw : String) :
    ClosedModel known (placeholder name raw) :=
  ⟨ClosedType.primitive known .any, by simp [ClosedTargets, Lowering.placeholder]⟩

theorem types (h : ClosedModel known model) {type : DataType} (htype : type ∈ model.types) :
    ClosedType known type := by
  have hshape := h.shape
  unfold Model.types at htype
  split at htype
  · rename_i hrecord
    rw [hrecord] at hshape
    obtain ⟨field, hfield, rfl⟩ := List.mem_map.1 htype
    exact hshape field hfield
  · rename_i halias
    rw [halias] at hshape
    obtain rfl := List.mem_singleton.1 htype
    exact hshape
  · simp at htype
  · simp at htype

end ClosedModel

/-! ## States that fit an inventory -/

/-- The state has a place for every model of the inventory, and what it holds mentions the
inventory only. Names of models and enumerations are held in the scope of types, so a new name
is never one of them. -/
structure Fits (known : Inventory) (state : State) : Prop where
  listed : ∀ name ∈ known.models, name ∈ state.models.names
  closed : ∀ model ∈ state.models.models, ClosedModel known model
  schemas : ∀ raw name, state.schemaNames.get? raw = some name → name ∈ known.models
  modelsTaken : ∀ name ∈ state.models.names, state.names.types.isTaken name = true
  enumsTaken : ∀ entry ∈ known.enums, state.names.types.isTaken entry.1 = true
  apart : ∀ entry ∈ known.enums, entry.1 ∉ state.models.names
  single : ∀ left ∈ known.enums, ∀ right ∈ known.enums, left.1 = right.1 → left = right
  firstTaken : ∀ raw name, state.names.types.get? raw = some name →
    state.names.types.isTaken name = true

namespace Fits

variable {state after : State}

/-- Only the table, the scope of types and the names of schemas matter. -/
theorem of_eq (h : Fits known state) (hmodels : after.models = state.models)
    (hschemas : after.schemaNames = state.schemaNames)
    (htypes : after.names.types = state.names.types) : Fits known after where
  listed := hmodels ▸ h.listed
  closed := hmodels ▸ h.closed
  schemas := hschemas ▸ h.schemas
  modelsTaken := by rw [hmodels, htypes]; exact h.modelsTaken
  enumsTaken := htypes ▸ h.enumsTaken
  apart := hmodels ▸ h.apart
  single := h.single
  firstTaken := htypes ▸ h.firstTaken

/-- A held name that no enumeration has may become a model, or be given another one. -/
theorem insert {model : Model} (h : Fits known state)
    (htaken : state.names.types.isTaken model.name = true)
    (hapart : ∀ entry ∈ known.enums, entry.1 ≠ model.name)
    (hclosed : ClosedModel (known.addModel model.name) model) :
    Fits (known.addModel model.name) { state with models := state.models.insert model } where
  listed := by
    intro name hname
    rw [ModelTable.mem_names_insert]
    exact hname.imp id (h.listed name)
  closed := by
    intro other hother
    obtain rfl | hother := ModelTable.mem_models_insert hother
    · exact hclosed
    · exact (h.closed other hother).mono (known.le_addModel model.name)
  schemas := fun raw name hraw => .inr (h.schemas raw name hraw)
  modelsTaken := by
    intro name hname
    obtain rfl | hname := ModelTable.mem_names_insert.1 hname
    · exact htaken
    · exact h.modelsTaken name hname
  enumsTaken := h.enumsTaken
  apart := by
    intro entry hentry hname
    obtain heq | hname := ModelTable.mem_names_insert.1 hname
    · exact hapart entry hentry heq
    · exact h.apart entry hentry hname
  single := h.single
  firstTaken := h.firstTaken

/-- A model that has a place may be replaced. -/
theorem insert_known {model : Model} (h : Fits known state) (hname : model.name ∈ known.models)
    (hclosed : ClosedModel known model) :
    Fits known { state with models := state.models.insert model } := by
  have hplace := h.listed model.name hname
  have hinsert := h.insert (h.modelsTaken model.name hplace)
    (fun entry hentry heq => h.apart entry hentry (heq ▸ hplace))
    (hclosed.mono (known.le_addModel model.name))
  rwa [Inventory.addModel_of_mem hname] at hinsert

/-- A held name that is no model and no enumeration may become an enumeration. -/
theorem addEnum {name : String} {values : List String} (h : Fits known state)
    (htaken : state.names.types.isTaken name = true) (hmodel : name ∉ state.models.names)
    (henum : ∀ entry ∈ known.enums, entry.1 ≠ name) : Fits (known.addEnum name values) state where
  listed := h.listed
  closed := fun model hmem => (h.closed model hmem).mono (known.le_addEnum name values)
  schemas := h.schemas
  modelsTaken := h.modelsTaken
  enumsTaken := by
    rintro entry (rfl | hentry)
    · exact htaken
    · exact h.enumsTaken entry hentry
  apart := by
    rintro entry (rfl | hentry)
    · exact hmodel
    · exact h.apart entry hentry
  single := by
    rintro left (rfl | hleft) right (rfl | hright) heq
    · rfl
    · exact absurd heq.symm (henum right hright)
    · exact absurd heq (henum left hleft)
    · exact h.single left hleft right hright heq
  firstTaken := h.firstTaken

/-- The name of a model may be given to a schema. -/
theorem putSchema {raw name : String} (h : Fits known state) (hname : name ∈ known.models) :
    Fits known { state with schemaNames := state.schemaNames.put raw name } where
  listed := h.listed
  closed := h.closed
  schemas := by
    intro other model hmodel
    by_cases heq : raw = other
    · subst heq
      rw [Entries.get?_put_same] at hmodel
      exact Option.some.inj hmodel ▸ hname
    · rw [Entries.get?_put_of_ne heq] at hmodel
      exact h.schemas other model hmodel
  modelsTaken := h.modelsTaken
  enumsTaken := h.enumsTaken
  apart := h.apart
  single := h.single
  firstTaken := h.firstTaken

/-- A new holder of a name in the scope of types. -/
theorem record (h : Fits known state) (raw name : String)
    (hmodels : after.models = state.models) (hschemas : after.schemaNames = state.schemaNames)
    (htypes : after.names.types = state.names.types.record raw name) : Fits known after where
  listed := hmodels ▸ h.listed
  closed := hmodels ▸ h.closed
  schemas := hschemas ▸ h.schemas
  modelsTaken := by
    intro other hother
    rw [hmodels] at hother
    rw [htypes, NameScope.isTaken_record]
    exact .inr (h.modelsTaken other hother)
  enumsTaken := by
    intro entry hentry
    rw [htypes, NameScope.isTaken_record]
    exact .inr (h.enumsTaken entry hentry)
  apart := hmodels ▸ h.apart
  single := h.single
  firstTaken := by
    intro other first hfirst
    rw [htypes] at hfirst ⊢
    rw [NameScope.isTaken_record]
    exact (NameScope.get?_record hfirst).imp id (h.firstTaken other first)

end Fits

/-- A name that was just claimed: it is held, but by no model and no enumeration. -/
structure NewName (known : Inventory) (state : State) (name : String) : Prop where
  taken : state.names.types.isTaken name = true
  noModel : name ∉ state.models.names
  noEnum : ∀ entry ∈ known.enums, entry.1 ≠ name

/-- A claim of a new type name answers one that nothing has. -/
theorem freshType_newName (setting : Setting) (hint location : String) :
    Contract True (Fits known) (freshType setting hint location)
      fun name after => Fits known after ∧ NewName known after name := by
  intro state hfits
  rw [freshType, claimed_run]
  let types := state.names.types
  let claim := types.claimFresh setting.target.reserved hint
    (setting.target.identifier .type hint)
  have hfree : types.isTaken claim.1.name = false := types.isTaken_claimFresh_name _ _ _
  have hrecord : claim.2 = types.record hint claim.1.name := types.claimFresh_snd _ _ _
  have hnot : ∀ name, types.isTaken name = true → claim.1.name ≠ name := by
    rintro name hname rfl
    rw [hfree] at hname
    exact absurd hname (by decide)
  refine ⟨hfits.record hint claim.1.name rfl rfl hrecord, ?_, ?_, ?_⟩
  · change claim.2.isTaken claim.1.name = true
    rw [hrecord, NameScope.isTaken_record]
    exact .inl rfl
  · exact fun hmem => hnot _ (hfits.modelsTaken _ hmem) rfl
  · exact fun entry hentry heq => hnot _ (hfits.enumsTaken entry hentry) heq.symm

/-- A claim of the type name of a schema answers a held name, perhaps one held before. -/
theorem claimType_taken (setting : Setting) (raw location : String) :
    Contract True (Fits known) (claimType setting raw location)
      fun name after => Fits known after ∧ after.names.types.isTaken name = true := by
  intro state hfits
  rw [claimType, claimed_run]
  let types := state.names.types
  let preferred := setting.target.identifier .type raw
  change Fits known _ ∧ (types.claim setting.target.reserved raw preferred).2.isTaken
    (types.claim setting.target.reserved raw preferred).1.name = true
  cases hfirst : types.get? raw with
  | some name =>
    have hclaim := NameScope.claim_of_get?_eq_some hfirst setting.target.reserved preferred
    rw [hclaim]
    exact ⟨hfits.of_eq rfl rfl (congrArg Prod.snd hclaim), hfits.firstTaken raw name hfirst⟩
  | none =>
    have hclaim : types.claim setting.target.reserved raw preferred =
        types.claimFresh setting.target.reserved raw preferred := by
      simp [NameScope.claim, hfirst]
    have hrecord := types.claimFresh_snd setting.target.reserved raw preferred
    rw [hclaim]
    refine ⟨hfits.record raw _ rfl rfl ((congrArg Prod.snd hclaim).trans hrecord), ?_⟩
    rw [hrecord, NameScope.isTaken_record]
    exact .inl rfl

/-- What a computation does with a new name that becomes a model. -/
theorem Grows.newModel {α : Type} {setting : Setting} {hint location : String}
    {model : String → Model} {next : String → SchemaM α} {last : Inventory → α → Prop}
    (hname : ∀ name, (model name).name = name)
    (hclosed : ∀ name, ClosedModel (known.addModel name) (model name))
    (hnext : ∀ more name, known ≤ more → name ∈ more.models → Grows Fits more (next name) last) :
    Grows Fits known (do
      let name ← freshType setting hint location
      insertModel (model name)
      next name) last := by
  refine Contract.bind (freshType_newName setting hint location) ?_
  rintro name state ⟨hfits, hnew⟩
  have hinsert := @Fits.insert known state (model name) hfits
  rw [hname] at hinsert
  have hplaced := hinsert hnew.taken hnew.noEnum (hclosed name)
  have hle := known.le_addModel name
  refine Contract.mono_post (hnext _ name hle (.inl rfl)) ?_ _ hplaced
  rintro value after ⟨more, hmore, hafter, hvalue⟩
  exact ⟨more, le_trans hle hmore, hafter, hvalue⟩

/-- What a computation does with a new name that becomes an enumeration. -/
theorem Grows.newEnum {α : Type} {setting : Setting} {hint location : String}
    (values : List String) {next : String → SchemaM α} {last : Inventory → α → Prop}
    (hnext : ∀ more name, known ≤ more → (name, values) ∈ more.enums →
      Grows Fits more (next name) last) :
    Grows Fits known (do
      let name ← freshType setting hint location
      next name) last := by
  refine Contract.bind (freshType_newName setting hint location) ?_
  rintro name state ⟨hfits, hnew⟩
  have hplaced : Fits (known.addEnum name values) state :=
    hfits.addEnum hnew.taken hnew.noModel hnew.noEnum
  have hle := known.le_addEnum name values
  refine Contract.mono_post (hnext _ name hle (.inl rfl)) ?_ _ hplaced
  rintro value after ⟨more, hmore, hafter, hvalue⟩
  exact ⟨more, le_trans hle hmore, hafter, hvalue⟩

theorem remark_grows (subject : Remark) (location : String) :
    Grows Fits known (remark subject location) fun _ _ => True :=
  Grows.modify (fun _ hfits => hfits.of_eq rfl rfl rfl) trivial

/-- A remark beside a type that mentions nothing. -/
theorem remarked_grows {type : DataType} (subject : Remark) (location : String)
    (h : ∀ more, ClosedType more type) :
    Grows Fits known (do remark subject location; return type) ClosedType := by
  refine (remark_grows subject location).bind ?_
  intro more _ _ _
  exact Grows.pure (h more)

theorem noted_grows (identifier : Identifier) (location : String) :
    Grows Fits known (noted identifier location) fun _ _ => True := by
  intro state hfits
  rw [noted_run]
  exact ⟨known, le_refl known, hfits.of_eq rfl rfl rfl, trivial⟩

theorem freshFunction_grows (setting : Setting) (raw location : String) :
    Grows Fits known (freshFunction setting raw location) fun _ _ => True := by
  intro state hfits
  rw [freshFunction, claimed_run]
  exact ⟨known, le_refl known, hfits.of_eq rfl rfl rfl, trivial⟩

theorem insertModel_grows {model : Model} (hname : model.name ∈ known.models)
    (hclosed : ClosedModel known model) :
    Grows Fits known (insertModel model) fun _ _ => True :=
  Grows.modify (fun _ hfits => hfits.insert_known hname hclosed) trivial

end Lowering

end ServantGen
