import ServantGen.Lowering.Models
import ServantGen.Proofs.Lowering.Contract
import ServantGen.Proofs.Lowering.Kinds

/-!
# Invariants of the recursion on schemas

Much of what is said of types has one form: the state keeps an invariant, and the types that are
found have a property that a type inherits from the types it is made of. A law tells why single
steps keep the two. One induction on the depth of the recursion then gives them for all types
that are found and all models that are made, whichever invariant and property they are.
-/

namespace ServantGen

/-- The types in a shape have a property. An enumeration has it under every name. -/
def Shape.AllTypes (right : DataType → Prop) : Shape → Prop
  | .record fields => ∀ field ∈ fields, right field.type
  | .enum values => ∀ name, right (.enum name values)
  | .union _ => True
  | .alias type => right type

namespace Lowering

variable {α : Type}

/-- A computation that keeps an invariant of the state, and whose result is right. -/
abbrev Preserves (invariant : State → Prop) (m : SchemaM α) (right : α → Prop) : Prop :=
  Grows (fun _ : NoRecord => invariant) ⟨⟩ m fun _ => right

def Remark.isOnSchema : Remark → Bool
  | .renamed _ | .arrayWithoutItems | .unknownType _ | .unresolvedReference _
  | .nestedTooDeeply _ => true
  | .mixedComponent _ | .unknownLocation _ _ | .extraBody _ | .noSchema _
  | .invalidStatus _ => false

/-- Schemas, with all those that the recursion goes on to from them. -/
structure Covers (document : Document) (within : Site → Prop) : Prop where
  found : ∀ {reference target}, Pointer.find? document.tree reference = some target → within target
  below : ∀ {schema key below}, within schema → schema.get? key = some below → within below
  parts : ∀ {schema parts}, within schema → parts? schema = some parts →
    ∀ part ∈ parts, within part
  alternatives : ∀ {schema alternatives}, within schema →
    alternatives? schema = some alternatives → ∀ alternative ∈ alternatives, within alternative
  properties : ∀ {schema}, within schema →
    ∀ property ∈ (properties document schema).properties, within property.2

theorem covers_all (document : Document) : Covers document fun _ => True := by
  constructor <;> intros <;> trivial

/-- An invariant of the state that the steps of the recursion keep, and a property of types that
they hand on. -/
structure TypeLaw (within : Site → Prop) (invariant : State → Prop) (right : DataType → Prop) :
    Prop where
  names : ∀ {state} names, invariant state → invariant { state with names := names }
  depth : ∀ {state} depth, invariant state → invariant { state with inlineDepth := depth }
  notice : ∀ {state} notice, notice.remark.isOnSchema = true → invariant state →
    invariant { state with notices := state.notices ++ [notice] }
  model : ∀ {state model}, model.shape.AllTypes right → invariant state →
    invariant { state with models := state.models.insert model }
  primitive : ∀ kind, right (.primitive kind)
  named : ∀ model, right (.named model)
  enum : ∀ {schema values}, within schema → stringEnum? schema.node = some values →
    ∀ name, right (.enum name values)
  array : ∀ {item}, right item → right (.array item)
  map : ∀ {value}, right value → right (.map value)
  orNone : ∀ {type}, right type → right type.orNone

/-- A way of finding types that keeps the invariant and answers types with the property. -/
def FindsBy (within : Site → Prop) (invariant : State → Prop) (right : DataType → Prop)
    (find : TypeFinder) : Prop :=
  ∀ site, within site → ∀ hint location, Preserves invariant (find site hint location) right

namespace TypeLaw

variable {within : Site → Prop} {invariant : State → Prop} {right : DataType → Prop}
  (law : TypeLaw within invariant right)
include law

/-! ## Single steps -/

theorem remark {subject : Remark} (h : subject.isOnSchema = true) (location : String) :
    Preserves invariant (remark subject location) fun _ => True :=
  Grows.modify (fun _ hstate => law.notice _ h hstate) trivial

/-- A remark and a type beside it. -/
theorem remarked {subject : Remark} (h : subject.isOnSchema = true) (location : String)
    {type : DataType} (htype : right type) :
    Preserves invariant (do Lowering.remark subject location; return type) right :=
  (law.remark h location).bind fun _ _ _ _ => Grows.pure htype

theorem renamed {state : State} (h : invariant state) (identifier : Identifier)
    (location : String) :
    invariant { state with
      notices := state.notices ++ renamedNotices identifier location } := by
  unfold renamedNotices
  cases identifier.collision with
  | none => simpa using h
  | some collision => exact law.notice _ rfl h

theorem noted (identifier : Identifier) (location : String) :
    Preserves invariant (noted identifier location) fun _ => True := by
  intro state hstate
  rw [noted_run]
  exact ⟨⟨⟩, le_rfl, law.renamed hstate identifier location, trivial⟩

theorem claimed (claim : NameBook → Identifier × NameBook) (location : String) :
    Preserves invariant (claimed claim location) fun _ => True := by
  intro state hstate
  rw [claimed_run]
  exact ⟨⟨⟩, le_rfl, law.renamed (law.names _ hstate) (claim state.names).1 location, trivial⟩

theorem insertModel (model : Model) (h : model.shape.AllTypes right) :
    Preserves invariant (insertModel model) fun _ => True :=
  Grows.modify (fun _ hstate => law.model h hstate) trivial

/-! ## Steps of the recursion -/

section Steps

variable {setting : Setting} {recur : TypeFinder} (hcovers : Covers setting.document within)
  (hrecur : FindsBy within invariant right recur)
include hcovers hrecur

theorem refType (reference hint location : String) :
    Preserves invariant (refType setting recur reference hint location) right := by
  refine Grows.get_bind fun state _ => ?_
  cases schemaModel? state.schemaNames reference with
  | some model => exact Grows.pure (law.named model)
  | none =>
    cases htarget : Pointer.find? setting.document.tree reference with
    | none => exact law.remarked rfl location (law.primitive .any)
    | some target =>
      dsimp only
      split
      · exact law.remarked rfl location (law.primitive .any)
      · refine Grows.modify_bind (fun _ hstate => law.depth _ hstate) ?_
        refine (hrecur target (hcovers.found htarget) hint location).bind fun _ type _ htype => ?_
        exact Grows.modify_bind (fun _ hstate => law.depth _ hstate) (Grows.pure htype)

omit hcovers in
theorem fieldsOf (model location : String) (required : List String) (scope : NameScope)
    {properties : List (String × Site)} (hproperties : ∀ property ∈ properties, within property.2) :
    Preserves invariant (fieldsOf setting recur model location required scope properties)
      fun fields => ∀ field ∈ fields, right field.type := by
  induction properties generalizing scope with
  | nil => exact Grows.pure (by simp)
  | cons property rest ih =>
    obtain ⟨hproperty, hrest⟩ := List.forall_mem_cons.1 hproperties
    refine (law.noted _ _).bind fun _ name _ _ => ?_
    refine (hrecur property.2 hproperty _ _).bind fun _ type _ htype => ?_
    refine (ih _ hrest).bind fun _ fields _ hfields => Grows.pure ?_
    refine List.forall_mem_cons.2 ⟨?_, hfields⟩
    dsimp only
    split
    · exact htype
    · exact law.orNone htype

omit hcovers in
theorem variantOf (model location : String) (position : Nat) {alternative : Site}
    (halternative : within alternative) :
    Preserves invariant (variantOf setting recur model location position alternative)
      fun _ => True := by
  refine Grows.get_bind fun state _ => ?_
  split
  · exact Grows.pure trivial
  · refine (hrecur alternative halternative _ location).bind fun _ type _ htype => ?_
    split
    · exact Grows.pure trivial
    · -- A type that is no model becomes the alias of a new name.
      refine (law.claimed _ _).bind fun _ name _ _ => ?_
      exact (law.insertModel ⟨name, _, none, .alias type, none⟩ htype).bind
        fun _ _ _ _ => Grows.pure trivial

omit hcovers in
theorem variantsOf (model location : String) (position : Nat) {alternatives : List Site}
    (halternatives : ∀ alternative ∈ alternatives, within alternative) :
    Preserves invariant (variantsOf setting recur model location position alternatives)
      fun _ => True := by
  induction alternatives generalizing position with
  | nil => exact Grows.pure trivial
  | cons alternative rest ih =>
    obtain ⟨hfirst, hrest⟩ := List.forall_mem_cons.1 halternatives
    refine (law.variantOf hrecur model location position hfirst).bind fun _ _ _ _ => ?_
    exact (ih (position + 1) hrest).bind fun _ _ _ _ => Grows.pure trivial

theorem shapeOf (name : String) {schema : Site} (hschema : within schema) (location : String) :
    Preserves invariant (shapeOf setting recur name schema location)
      fun result => result.1.AllTypes right := by
  rw [shapeOf_eq]
  cases shapeKind schema with
  | reference reference =>
    exact (law.refType hcovers hrecur reference name location).bind
      fun _ type _ htype => Grows.pure htype
  | enum values _ hvalues => exact Grows.pure (law.enum hschema hvalues)
  | record =>
    exact (law.fieldsOf hrecur name location _ _ (hcovers.properties hschema)).bind
      fun _ fields _ hfields => Grows.pure hfields
  | union alternatives _ _ _ halternatives =>
    exact (law.variantsOf hrecur name location 1 (hcovers.alternatives hschema halternatives)).bind
      fun _ _ _ _ => Grows.get_bind fun _ _ => Grows.pure trivial
  | empty => exact Grows.pure (by simp [Shape.AllTypes])
  | type =>
    exact (hrecur schema hschema name location).bind fun _ type _ htype => Grows.pure htype

theorem modelOf (name raw : String) {schema : Site} (hschema : within schema)
    (location : String) :
    Preserves invariant (modelOf setting recur name raw schema location)
      fun model => model.shape.AllTypes right :=
  (law.shapeOf hcovers hrecur name hschema location).bind fun _ _ _ hshape => Grows.pure hshape

theorem hoist {schema : Site} (hschema : within schema) (hint location : String) :
    Preserves invariant (hoist setting recur schema hint location) right := by
  refine (law.claimed _ _).bind fun _ name _ _ => ?_
  refine (law.insertModel (placeholder name hint) (law.primitive .any)).bind
    fun _ _ _ _ => ?_
  refine (law.modelOf hcovers hrecur name hint hschema location).bind fun _ model _ hmodel => ?_
  exact (law.insertModel model hmodel).bind fun _ _ _ _ => Grows.pure (law.named name)

theorem plainType {schema : Site} (hschema : within schema) (hint location : String) :
    Preserves invariant (plainType recur schema hint location) right := by
  rw [plainType_eq]
  cases plainKind schema with
  | array items _ hitems =>
    exact (hrecur items (hcovers.below hschema hitems) _ location).bind
      fun _ type _ htype => Grows.pure (law.array htype)
  | anyArray => exact law.remarked rfl location (law.array (law.primitive .any))
  | map value _ _ hvalue =>
    exact (hrecur value (hcovers.below hschema hvalue) _ location).bind
      fun _ type _ htype => Grows.pure (law.map htype)
  | anyMap => exact Grows.pure (law.map (law.primitive .any))
  | any => exact Grows.pure (law.primitive .any)
  | primitive type kind => exact Grows.pure (law.primitive kind)
  | unknown type => exact law.remarked rfl location (law.primitive .any)

theorem coreType {schema : Site} (hschema : within schema) (hint location : String) :
    Preserves invariant (coreType setting recur schema hint location) right := by
  rw [coreType_eq]
  cases typeKind schema with
  | reference reference => exact law.refType hcovers hrecur reference hint location
  | enum values _ hvalues =>
    exact (law.claimed _ _).bind fun _ name _ _ => Grows.pure (law.enum hschema hvalues name)
  | object => exact law.hoist hcovers hrecur hschema hint location
  | part part _ _ hparts =>
    exact hrecur part (hcovers.parts hschema hparts part List.mem_cons_self) hint location
  | plain => exact law.plainType hcovers hrecur hschema hint location

theorem typeStep : FindsBy within invariant right (typeStep setting recur) := by
  intro schema hschema hint location
  refine (law.coreType hcovers hrecur hschema hint location).bind fun _ type _ htype => ?_
  refine Grows.pure ?_
  split
  · exact law.orNone htype
  · exact htype

/-- The models that named schemas get keep the invariant. -/
theorem lowerModels (hschemas : ∀ schema ∈ setting.document.schemas, within schema.2) :
    Preserves invariant (lowerModels setting recur) fun _ => True := by
  refine Grows.forM fun schema hschema _ _ => ?_
  refine Grows.get_bind fun state _ => ?_
  split
  · exact Grows.pure trivial
  · refine (law.modelOf hcovers hrecur _ _ (hschemas schema hschema) _).bind
      fun _ model _ hmodel => ?_
    exact law.insertModel model hmodel

end Steps

/-- However deep the recursion may go, it keeps the invariant and answers types with the
property. -/
theorem typeOf {setting : Setting} (hcovers : Covers setting.document within) (depth : Nat) :
    FindsBy within invariant right (typeOf setting depth) := by
  induction depth with
  | zero => exact fun _ _ _ _ _ _ => trivial
  | succ depth ih => exact law.typeStep hcovers ih

end TypeLaw

end Lowering

end ServantGen
