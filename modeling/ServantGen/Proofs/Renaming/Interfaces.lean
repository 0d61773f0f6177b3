import Mathlib.Data.List.Forall2
import Mathlib.Order.Basic
import ServantGen.Api.Basic
import ServantGen.Proofs.Naming.Fresh

/-!
# Interfaces up to names

A renaming pairs names one to one. Two interfaces are alike when they differ in names only: one
renaming of types serves wherever types are named, be it in the table, in references or in
enumerations, one renaming of functions serves for all operations, and each record and each
operation has a renaming of its own for its fields or its parameters. Whatever the document calls
a thing is the same on both sides, except for models that the document does not name.

All relations say more when a renaming has more pairs, and none of them is lost then.
-/

namespace Option.Rel

variable {α : Type} {related related' : α → α → Prop} {value value' other other' : Option α}

theorem imp (h : Option.Rel related value value') (himp : ∀ a b, related a b → related' a b) :
    Option.Rel related' value value' := by
  cases h with
  | some h => exact .some (himp _ _ h)
  | none => exact .none

theorem or (h : Option.Rel related value value') (hother : Option.Rel related other other') :
    Option.Rel related (value.or other) (value'.or other') := by
  cases h with
  | some h => exact .some h
  | none => exact hother

end Option.Rel

namespace ServantGen

/-! ## Renamings -/

/-- Names that correspond, one to one. -/
structure Renaming where
  pairs : String → String → Prop
  once : Relator.BiUnique pairs

namespace Renaming

/-- A renaming with more pairs says more. -/
instance : Preorder Renaming := Preorder.lift pairs

def empty : Renaming where
  pairs _ _ := False
  once := ⟨fun _ _ _ h => h.elim, fun _ _ _ h => h.elim⟩

variable {names : Renaming} {name name' other other' : String}

/-- Names are equal when those that correspond to them are. -/
theorem eq_iff (h : names.pairs name name') (hother : names.pairs other other') :
    name = other ↔ name' = other' :=
  Relator.rel_eq names.once h hother

/-- One more pair of names, when both are new. -/
def extend (names : Renaming) (name name' : String)
    (hnew : ∀ other', ¬ names.pairs name other')
    (hnew' : ∀ other, ¬ names.pairs other name') : Renaming where
  pairs left right := names.pairs left right ∨ (left = name ∧ right = name')
  once := by
    constructor
    · rintro left other right (h | ⟨rfl, rfl⟩) (h' | ⟨rfl, h'⟩)
      · exact names.once.1 h h'
      · exact (hnew' left (h' ▸ h)).elim
      · exact (hnew' other h').elim
      · rfl
    · rintro left right other (h | ⟨rfl, rfl⟩) (h' | ⟨h', rfl⟩)
      · exact names.once.2 h h'
      · exact (hnew right (h' ▸ h)).elim
      · exact (hnew other h').elim
      · rfl

/-- All names of a renaming are held in two scopes. -/
def HeldIn (names : Renaming) (scope scope' : NameScope) : Prop :=
  ∀ name name', names.pairs name name' →
    scope.isTaken name = true ∧ scope'.isTaken name' = true

theorem heldIn_empty (scope scope' : NameScope) : Renaming.empty.HeldIn scope scope' :=
  fun _ _ h => h.elim

/-- Whatever new names two scopes hand out, they can be paired. -/
theorem HeldIn.claimFresh {scope scope' : NameScope} (h : names.HeldIn scope scope')
    (reserved reserved' : List String) (raw raw' preferred preferred' : String) :
    let claim := scope.claimFresh reserved raw preferred
    let claim' := scope'.claimFresh reserved' raw' preferred'
    ∃ more : Renaming, names ≤ more ∧ more.HeldIn claim.2 claim'.2 ∧
      more.pairs claim.1.name claim'.1.name := by
  intro claim claim'
  have hnew : ∀ other', ¬ names.pairs claim.1.name other' := by
    intro other' hpair
    have hfree := scope.isTaken_claimFresh_name reserved raw preferred
    exact Bool.false_ne_true (hfree.symm.trans (h _ _ hpair).1)
  have hnew' : ∀ other, ¬ names.pairs other claim'.1.name := by
    intro other hpair
    have hfree := scope'.isTaken_claimFresh_name reserved' raw' preferred'
    exact Bool.false_ne_true (hfree.symm.trans (h _ _ hpair).2)
  refine ⟨names.extend claim.1.name claim'.1.name hnew hnew', fun _ _ => .inl, ?_,
    .inr ⟨rfl, rfl⟩⟩
  intro name name' hpair
  rw [NameScope.claimFresh_snd, NameScope.claimFresh_snd, NameScope.isTaken_record,
    NameScope.isTaken_record]
  obtain hpair | ⟨rfl, rfl⟩ := hpair
  · exact ⟨.inr (h _ _ hpair).1, .inr (h _ _ hpair).2⟩
  · exact ⟨.inl rfl, .inl rfl⟩

end Renaming

/-! ## What is alike -/

/-- Entries with the same keys, whose values correspond. -/
def Entries.Alike (types : Renaming) (entries entries' : Entries String) : Prop :=
  List.Forall₂ (fun entry entry' => entry'.1 = entry.1 ∧ types.pairs entry.2 entry'.2)
    entries entries'

/-- Types with the same parts, in which models and enumerations correspond. -/
inductive DataType.Alike (types : Renaming) : DataType → DataType → Prop
  | primitive (kind : Primitive) : Alike types (.primitive kind) (.primitive kind)
  | array {item item' : DataType} (h : Alike types item item') :
    Alike types (.array item) (.array item')
  | map {value value' : DataType} (h : Alike types value value') :
    Alike types (.map value) (.map value')
  | named {model model' : String} (h : types.pairs model model') :
    Alike types (.named model) (.named model')
  | optional {inner inner' : DataType} (h : Alike types inner inner') :
    Alike types (.optional inner) (.optional inner')
  | enum {name name' : String} (h : types.pairs name name') (values : List String) :
    Alike types (.enum name values) (.enum name' values)

/-- Fields of the same property. -/
structure Field.Alike (types names : Renaming) (field field' : Field) : Prop where
  name : names.pairs field.name field'.name
  rawName : field'.rawName = field.rawName
  type : field.type.Alike types field'.type
  required : field'.required = field.required
  description : field'.description = field.description

/-- Models of the same kind; the fields of a record have a renaming of their own. -/
inductive Shape.Alike (types : Renaming) : Shape → Shape → Prop
  | record {fields fields' : List Field} (names : Renaming)
    (h : List.Forall₂ (Field.Alike types names) fields fields') :
    Alike types (.record fields) (.record fields')
  | enum (values : List String) : Alike types (.enum values) (.enum values)
  | union {variants variants' : List String} (h : List.Forall₂ types.pairs variants variants') :
    Alike types (.union variants) (.union variants')
  | alias {type type' : DataType} (h : type.Alike types type') :
    Alike types (.alias type) (.alias type')

/-- The same tags, which select models that correspond. -/
structure Discriminator.Alike (types : Renaming) (discriminator discriminator' : Discriminator) :
    Prop where
  property : discriminator'.property = discriminator.property
  mapping : Entries.Alike types discriminator.mapping discriminator'.mapping

/-- Models that correspond, whatever they are called in the document. -/
structure Model.Alike (types : Renaming) (model model' : Model) : Prop where
  name : types.pairs model.name model'.name
  description : model'.description = model.description
  shape : model.shape.Alike types model'.shape
  discriminator : Option.Rel (Discriminator.Alike types) model.discriminator model'.discriminator

/-- Segments with the same text, or placeholders of the same name. -/
inductive Segment.Alike (types : Renaming) : Segment → Segment → Prop
  | literal (text : String) : Alike types (.literal text) (.literal text)
  | parameter (name : String) {type type' : DataType} (h : type.Alike types type') :
    Alike types (.parameter name type) (.parameter name type')
  | root : Alike types .root .root

structure Parameter.Alike (types names : Renaming) (parameter parameter' : Parameter) : Prop where
  name : names.pairs parameter.name parameter'.name
  rawName : parameter'.rawName = parameter.rawName
  location : parameter'.location = parameter.location
  required : parameter'.required = parameter.required
  type : parameter.type.Alike types parameter'.type
  default : parameter'.default = parameter.default
  description : parameter'.description = parameter.description

structure RequestBody.Alike (types : Renaming) (body body' : RequestBody) : Prop where
  type : body.type.Alike types body'.type
  required : body'.required = body.required
  contentType : body'.contentType = body.contentType
  description : body'.description = body.description

structure ResponseHeader.Alike (types : Renaming) (header header' : ResponseHeader) : Prop where
  name : header'.name = header.name
  type : header.type.Alike types header'.type
  required : header'.required = header.required

structure Response.Alike (types : Renaming) (response response' : Response) : Prop where
  status : response'.status = response.status
  description : response'.description = response.description
  type : Option.Rel (DataType.Alike types) response.type response'.type
  headers : List.Forall₂ (ResponseHeader.Alike types) response.headers response'.headers

/-- Operations on the same route; the parameters have a renaming of their own. -/
structure Operation.Alike (types functions : Renaming) (operation operation' : Operation) :
    Prop where
  id : functions.pairs operation.id operation'.id
  rawId : operation'.rawId = operation.rawId
  method : operation'.method = operation.method
  rawPath : operation'.rawPath = operation.rawPath
  path : List.Forall₂ (Segment.Alike types) operation.path.segments operation'.path.segments
  parameters : ∃ names, List.Forall₂ (Parameter.Alike types names) operation.parameters
    operation'.parameters
  requestBody : Option.Rel (RequestBody.Alike types) operation.requestBody operation'.requestBody
  responses : List.Forall₂ (Response.Alike types) operation.responses operation'.responses
  tags : operation'.tags = operation.tags
  summary : operation'.summary = operation.summary
  description : operation'.description = operation.description
  deprecated : operation'.deprecated = operation.deprecated

/-- Interfaces that differ in names only. Their first `declared` models have names in the document,
which are the same. -/
structure Api.Alike (declared : Nat) (types functions : Renaming) (api api' : Api) : Prop where
  info : api'.info = api.info
  models : List.Forall₂ (Model.Alike types) api.models.models api'.models.models
  rawNames : (api'.models.models.take declared).map Model.rawName =
    (api.models.models.take declared).map Model.rawName
  operations : List.Forall₂ (Operation.Alike types functions) api.operations api'.operations

/-! ## Renamings with more pairs -/

theorem Entries.Alike.mono {types more : Renaming} (hle : types ≤ more)
    {entries entries' : Entries String} (h : Entries.Alike types entries entries') :
    Entries.Alike more entries entries' :=
  h.imp fun _ _ h => ⟨h.1, hle _ _ h.2⟩

section Mono

variable {types more functions names : Renaming} (hle : types ≤ more)
include hle

theorem DataType.Alike.mono {type type' : DataType} (h : type.Alike types type') :
    type.Alike more type' := by
  induction h with
  | primitive kind => exact .primitive kind
  | array _ ih => exact .array ih
  | map _ ih => exact .map ih
  | named h => exact .named (hle _ _ h)
  | optional _ ih => exact .optional ih
  | enum h values => exact .enum (hle _ _ h) values

theorem Field.Alike.mono {names' : Renaming} (hnames : names ≤ names') {field field' : Field}
    (h : field.Alike types names field') : field.Alike more names' field' :=
  { h with
    name := hnames _ _ h.name
    type := h.type.mono hle }

theorem Shape.Alike.mono {shape shape' : Shape} (h : shape.Alike types shape') :
    shape.Alike more shape' := by
  cases h with
  | record names h => exact .record names (h.imp fun _ _ h => h.mono hle le_rfl)
  | enum values => exact .enum values
  | union h => exact .union (h.imp hle)
  | «alias» h => exact .alias (h.mono hle)

theorem Model.Alike.mono {model model' : Model} (h : model.Alike types model') :
    model.Alike more model' where
  name := hle _ _ h.name
  description := h.description
  shape := h.shape.mono hle
  discriminator := h.discriminator.imp fun _ _ h => ⟨h.property, h.mapping.mono hle⟩

theorem Segment.Alike.mono {segment segment' : Segment} (h : segment.Alike types segment') :
    segment.Alike more segment' := by
  cases h with
  | literal text => exact .literal text
  | parameter name h => exact .parameter name (h.mono hle)
  | root => exact .root

theorem Parameter.Alike.mono {names' : Renaming} (hnames : names ≤ names')
    {parameter parameter' : Parameter} (h : parameter.Alike types names parameter') :
    parameter.Alike more names' parameter' :=
  { h with
    name := hnames _ _ h.name
    type := h.type.mono hle }

theorem RequestBody.Alike.mono {body body' : RequestBody} (h : body.Alike types body') :
    body.Alike more body' :=
  { h with type := h.type.mono hle }

theorem ResponseHeader.Alike.mono {header header' : ResponseHeader}
    (h : header.Alike types header') : header.Alike more header' :=
  { h with type := h.type.mono hle }

theorem Response.Alike.mono {response response' : Response} (h : response.Alike types response') :
    response.Alike more response' :=
  { h with
    type := h.type.imp fun _ _ h => h.mono hle
    headers := h.headers.imp fun _ _ h => h.mono hle }

theorem Operation.Alike.mono {functions' : Renaming} (hfunctions : functions ≤ functions')
    {operation operation' : Operation} (h : operation.Alike types functions operation') :
    operation.Alike more functions' operation' :=
  { h with
    id := hfunctions _ _ h.id
    path := h.path.imp fun _ _ h => h.mono hle
    parameters := by
      obtain ⟨names, h⟩ := h.parameters
      exact ⟨names, h.imp fun _ _ h => h.mono hle le_rfl⟩
    requestBody := h.requestBody.imp fun _ _ h => h.mono hle
    responses := h.responses.imp fun _ _ h => h.mono hle }

end Mono

/-! ## What respects names -/

namespace Entries.Alike

variable {types : Renaming} {entries entries' : Entries String}

theorem get? (h : Entries.Alike types entries entries') (key : String) :
    Option.Rel types.pairs (entries.get? key) (entries'.get? key) := by
  induction h with
  | nil => exact .none
  | @cons entry entry' rest rest' hentry _ ih =>
    obtain ⟨own, value⟩ := entry
    obtain ⟨own', value'⟩ := entry'
    obtain ⟨rfl, hvalue⟩ := hentry
    by_cases hkey : own' = key
    · simpa only [Entries.get?, if_pos hkey] using Option.Rel.some hvalue
    · simpa only [Entries.get?, if_neg hkey] using ih

theorem put (h : Entries.Alike types entries entries') (key : String) {name name' : String}
    (hname : types.pairs name name') :
    Entries.Alike types (entries.put key name) (entries'.put key name') := by
  induction h with
  | nil => exact .cons ⟨rfl, hname⟩ .nil
  | @cons entry entry' rest rest' hentry hrest ih =>
    obtain ⟨own, value⟩ := entry
    obtain ⟨own', value'⟩ := entry'
    obtain ⟨rfl, hvalue⟩ := hentry
    by_cases hkey : own' = key
    · simp only [Entries.put, if_pos hkey]
      exact .cons ⟨rfl, hname⟩ hrest
    · simp only [Entries.put, if_neg hkey]
      exact .cons ⟨rfl, hvalue⟩ ih

end Entries.Alike

/-- Where the first names of two scopes correspond, a raw name is known to both or to neither, and
its first names can be paired. -/
theorem Renaming.HeldIn.claim {names : Renaming} {scope scope' : NameScope}
    (h : names.HeldIn scope scope')
    (hfirst : Entries.Alike names scope.firstNames scope'.firstNames)
    (reserved reserved' : List String) (raw preferred preferred' : String) :
    let claim := scope.claim reserved raw preferred
    let claim' := scope'.claim reserved' raw preferred'
    ∃ more : Renaming, names ≤ more ∧ more.HeldIn claim.2 claim'.2 ∧
      Entries.Alike more claim.2.firstNames claim'.2.firstNames ∧
      more.pairs claim.1.name claim'.1.name := by
  have hknown : Option.Rel names.pairs (scope.get? raw) (scope'.get? raw) := hfirst.get? raw
  unfold NameScope.claim
  cases hget : scope.get? raw with
  | some name =>
    rw [hget] at hknown
    obtain ⟨name', hget', hpair⟩ :
        ∃ name', scope'.get? raw = some name' ∧ names.pairs name name' := by
      generalize scope'.get? raw = found at hknown
      cases hknown with
      | some hpair => exact ⟨_, rfl, hpair⟩
    rw [hget']
    exact ⟨names, le_rfl, h, hfirst, hpair⟩
  | none =>
    rw [hget] at hknown
    have hget' : scope'.get? raw = none := by
      generalize scope'.get? raw = found at hknown
      cases hknown with
      | none => rfl
    rw [hget']
    obtain ⟨more, hle, hheld, hpair⟩ :=
      h.claimFresh reserved reserved' raw raw preferred preferred'
    refine ⟨more, hle, hheld, ?_, hpair⟩
    rw [NameScope.claimFresh_snd, NameScope.claimFresh_snd]
    simp only [NameScope.record, Entries.has, NameScope.get?] at hget hget' ⊢
    simp only [hget, hget', Option.isSome_none, Bool.false_eq_true, if_false]
    exact List.rel_append (hfirst.mono hle) (.cons ⟨rfl, hpair⟩ .nil)

namespace DataType.Alike

variable {types : Renaming} {type type' : DataType}

theorem orNone (h : type.Alike types type') : type.orNone.Alike types type'.orNone := by
  cases h with
  | optional h => exact .optional h
  | primitive kind => exact .optional (.primitive kind)
  | array h => exact .optional (.array h)
  | map h => exact .optional (.map h)
  | named h => exact .optional (.named h)
  | enum h values => exact .optional (.enum h values)

theorem ite_orNone (h : type.Alike types type') (condition : Prop) [Decidable condition] :
    (if condition then type else type.orNone).Alike types
      (if condition then type' else type'.orNone) := by
  split
  · exact h
  · exact h.orNone

theorem stripOptional (h : type.Alike types type') :
    type.stripOptional.Alike types type'.stripOptional := by
  cases h with
  | optional h => exact h
  | primitive kind => exact .primitive kind
  | array h => exact .array h
  | map h => exact .map h
  | named h => exact .named h
  | enum h values => exact .enum h values

end DataType.Alike

/-- A model takes the place of the one that has its name, on both sides or on neither. -/
theorem ModelTable.alike_insertInto {types : Renaming} {models models' : List Model}
    {model model' : Model} (h : List.Forall₂ (Model.Alike types) models models')
    (hmodel : model.Alike types model') :
    List.Forall₂ (Model.Alike types) (insertInto model models) (insertInto model' models') := by
  induction h with
  | nil => exact .cons hmodel .nil
  | @cons other other' rest rest' hother hrest ih =>
    have hsame := Renaming.eq_iff hother.name hmodel.name
    by_cases hname : other.name = model.name
    · simpa only [insertInto, if_pos hname, if_pos (hsame.1 hname)] using .cons hmodel hrest
    · simpa only [insertInto, if_neg hname, if_neg (hsame.not.1 hname)] using .cons hother ih

namespace Segment.Alike

variable {types : Renaming} {segment segment' : Segment} {segments segments' : List Segment}

theorem trimmed? (h : segment.Alike types segment') :
    Option.Rel (Segment.Alike types) segment.trimmed? segment'.trimmed? := by
  cases h with
  | literal text =>
    unfold Segment.trimmed?
    dsimp only
    split
    · exact .none
    · exact .some (.literal _)
  | parameter name h => exact .some (.parameter name h)
  | root => exact .none

theorem glue (h : segment.Alike types segment')
    (hrest : List.Forall₂ (Segment.Alike types) segments segments') :
    List.Forall₂ (Segment.Alike types) (Segment.glue segment segments)
      (Segment.glue segment' segments') := by
  cases h with
  | literal text =>
    cases hrest with
    | nil => exact .cons (.literal text) .nil
    | cons hnext hrest =>
      cases hnext with
      | literal next => exact .cons (.literal _) hrest
      | parameter name h => exact .cons (.literal text) (.cons (.parameter name h) hrest)
      | root => exact .cons (.literal text) (.cons .root hrest)
  | parameter name h => exact .cons (.parameter name h) hrest
  | root => exact .cons .root hrest

theorem foldr_glue (h : List.Forall₂ (Segment.Alike types) segments segments') :
    List.Forall₂ (Segment.Alike types) (segments.foldr Segment.glue [])
      (segments'.foldr Segment.glue []) := by
  induction h with
  | nil => exact .nil
  | cons hfirst _ ih => exact hfirst.glue ih

/-- The normal form of a route does not look into types. -/
theorem ofSegments (h : List.Forall₂ (Segment.Alike types) segments segments') :
    List.Forall₂ (Segment.Alike types) (Route.ofSegments segments).segments
      (Route.ofSegments segments').segments := by
  have htrimmed : List.Forall₂ (Segment.Alike types) (segments.filterMap Segment.trimmed?)
      (segments'.filterMap Segment.trimmed?) :=
    List.rel_filterMap (fun _ _ h => Segment.Alike.trimmed? h) h
  have hglued := foldr_glue htrimmed
  unfold Route.ofSegments
  revert hglued
  generalize (segments.filterMap Segment.trimmed?).foldr Segment.glue [] = glued
  generalize (segments'.filterMap Segment.trimmed?).foldr Segment.glue [] = glued'
  rintro (_ | ⟨hfirst, hrest⟩)
  · exact .cons .root .nil
  · exact .cons hfirst hrest

end Segment.Alike

end ServantGen
