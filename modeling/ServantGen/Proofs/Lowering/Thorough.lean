import ServantGen.Lowering.Models
import ServantGen.Proofs.Lowering.Invariants

/-!
# Nothing is left out of schemas

Some notices tell that a part of the document was left out, and others that a part was read in some
other way than it says. While schemas are lowered only the latter are added: types and models are
found without leaving anything out, however deep the recursion goes.
-/

namespace ServantGen.Lowering

variable {α β : Type}

/-! ## Notices of what is left out -/

/-- Whether a remark tells that a part of the document was left out. -/
def Remark.tellsOmission : Remark → Bool
  | .unknownLocation _ _ | .extraBody _ | .invalidStatus _ => true
  | _ => false

/-- The diagnostics that tell that a part of the document was left out. -/
def omissions (notices : List Notice) : List Diagnostic :=
  (notices.filter fun notice => notice.remark.tellsOmission).map Notice.toDiagnostic

theorem omissions_append (notices more : List Notice) :
    omissions (notices ++ more) = omissions notices ++ omissions more := by
  simp [omissions]

theorem omissions_renamedNotices (identifier : Identifier) (location : String) :
    omissions (renamedNotices identifier location) = [] := by
  unfold renamedNotices
  cases identifier.collision <;> rfl

/-- What a state tells of things left out. -/
def HasTold (told : List Diagnostic) (state : State) : Prop :=
  omissions state.notices = told

/-- What a computation leaves out is told by diagnostics that are right for its result. -/
def Omits (m : SchemaM α) (right : List Diagnostic → α → Prop) : Prop :=
  ∀ told, Contract True (HasTold told) m fun value after =>
    ∃ new, HasTold (told ++ new) after ∧ right new value

/-- The same for a computation that may find an error; nothing is said of errors. -/
def OmitsOk (m : OperationM α) (right : List Diagnostic → α → Prop) : Prop :=
  Omits m.run fun new outcome => ∀ value, outcome = .ok value → right new value

/-- A computation that leaves nothing out. -/
abbrev Thorough (m : SchemaM α) : Prop :=
  Omits m fun new _ => new = []

namespace Omits

variable {m : SchemaM α} {right : List Diagnostic → α → Prop} {last : List Diagnostic → β → Prop}

theorem mono {right' : List Diagnostic → α → Prop} (h : Omits m right)
    (himp : ∀ new value, right new value → right' new value) : Omits m right' := by
  intro told
  refine (h told).mono_post ?_
  rintro value after ⟨new, htold, hright⟩
  exact ⟨new, htold, himp new value hright⟩

theorem pure {value : α} (h : right [] value) : Omits (pure value) right :=
  fun told => Contract.pure fun _ htold => ⟨[], by rwa [List.append_nil], h⟩

theorem bind {next : α → SchemaM β} (first : Omits m right)
    (second : ∀ new value, right new value → Omits (next value) fun more => last (new ++ more)) :
    Omits (m >>= next) last := by
  intro told
  refine (first told).bind ?_
  rintro value middle ⟨new, htold, hvalue⟩
  refine (second new value hvalue (told ++ new)).mono_post ?_ middle htold
  rintro result after ⟨more, hmore, hresult⟩
  exact ⟨new ++ more, by rwa [← List.append_assoc], hresult⟩

/-- A remark on something that is left out. -/
theorem remark {subject : Remark} (h : subject.tellsOmission = true) (location : String) :
    Omits (remark subject location) fun new _ =>
      new = [(⟨subject, location⟩ : Notice).toDiagnostic] := by
  refine fun told => Contract.modify fun state hstate => ⟨_, ?_, rfl⟩
  rw [HasTold, omissions_append, hstate]
  simp [omissions, h]

/-- What is known of every result may be added. -/
theorem and_returns {good : α → Prop} (h : Omits m right) (hgood : Returns m good) :
    Omits m fun new value => right new value ∧ good value := by
  intro told state hstate
  have hright := h told state hstate
  have hvalue := hgood state trivial
  revert hright hvalue
  cases m.run state with
  | none => exact fun _ _ => trivial
  | some result =>
    rintro ⟨new, htold, hright⟩ hvalue
    exact ⟨new, htold, hright, hvalue⟩

theorem lift (h : Omits m right) : OmitsOk (liftM m) right := by
  intro told
  refine Contract.lift ((h told).mono_post ?_)
  rintro value after ⟨new, htold, hright⟩
  refine ⟨new, htold, ?_⟩
  rintro _ ⟨⟩
  exact hright

end Omits

namespace Thorough

variable {m : SchemaM α} {last : List Diagnostic → β → Prop}

/-- A computation that leaves nothing out adds nothing to what the next one leaves out. -/
theorem bind {next : α → SchemaM β} (first : Thorough m)
    (second : ∀ value, Omits (next value) last) : Omits (m >>= next) last := by
  refine Omits.bind first ?_
  rintro _ value rfl
  exact second value

/-- Other notices do not count. -/
theorem silent (h : ∀ state, ∃ value after, m.run state = some (value, after) ∧
    omissions after.notices = omissions state.notices) : Thorough m := by
  intro told state hstate
  obtain ⟨value, after, hrun, hnotices⟩ := h state
  rw [hrun]
  refine ⟨[], ?_, rfl⟩
  rw [List.append_nil]
  exact hnotices.trans hstate

theorem modify {change : State → State}
    (h : ∀ state, (change state).notices = state.notices) :
    Thorough (modify change : SchemaM PUnit) :=
  silent fun state => ⟨_, _, rfl, congrArg omissions (h state)⟩

theorem remark {subject : Remark} (h : subject.tellsOmission = false) (location : String) :
    Thorough (remark subject location) := by
  refine silent fun state => ⟨_, _, rfl, ?_⟩
  simp [omissions, h]

theorem noted (identifier : Identifier) (location : String) :
    Thorough (noted identifier location) := by
  refine silent fun state => ⟨_, _, noted_run identifier location state, ?_⟩
  rw [omissions_append, omissions_renamedNotices, List.append_nil]

theorem claimed (claim : NameBook → Identifier × NameBook) (location : String) :
    Thorough (claimed claim location) := by
  refine silent fun state => ⟨_, _, claimed_run claim location state, ?_⟩
  rw [omissions_append, omissions_renamedNotices, List.append_nil]

theorem insertModel (model : Model) : Thorough (insertModel model) :=
  modify fun _ => rfl

theorem forM {items : List α} {action : α → SchemaM PUnit} (h : ∀ item, Thorough (action item)) :
    Thorough (items.forM action) := by
  induction items with
  | nil => exact Omits.pure rfl
  | cons item items ih => exact (h item).bind fun _ => ih

theorem mapM {items : List α} {action : α → SchemaM β} (h : ∀ item, Thorough (action item)) :
    Thorough (items.mapM action) := by
  induction items with
  | nil => exact Omits.pure rfl
  | cons item items ih =>
    rw [List.mapM_cons]
    exact (h item).bind fun value => ih.bind fun values => Omits.pure rfl

end Thorough

namespace OmitsOk

variable {m : OperationM α} {right : List Diagnostic → α → Prop} {last : List Diagnostic → β → Prop}

theorem pure {value : α} (h : right [] value) : OmitsOk (pure value) right := by
  refine Omits.pure ?_
  rintro _ ⟨⟩
  exact h

theorem bind {next : α → OperationM β} (first : OmitsOk m right)
    (second : ∀ new value, right new value → OmitsOk (next value) fun more => last (new ++ more)) :
    OmitsOk (m >>= next) last := by
  unfold OmitsOk
  rw [ExceptT.run_bind]
  refine Omits.bind first fun new outcome houtcome => ?_
  cases outcome with
  | ok value => exact second new value (houtcome value rfl)
  | error error => exact Omits.pure (by simp)

/-- What leaves nothing out is followed by what may leave something out. -/
theorem before {next : α → OperationM β} {good : α → Prop}
    (first : OmitsOk m fun new value => new = [] ∧ good value)
    (second : ∀ value, good value → OmitsOk (next value) last) : OmitsOk (m >>= next) last := by
  refine bind first ?_
  rintro _ value ⟨rfl, hvalue⟩
  exact second value hvalue

theorem outcome (outcome : Except BuildError α) :
    OmitsOk (liftM outcome : OperationM α) fun new value => new = [] ∧ outcome = .ok value := by
  cases outcome with
  | ok value => exact OmitsOk.pure ⟨rfl, rfl⟩
  | error error => exact Omits.pure (by simp)

theorem orFail (location : String) (outcome : Except ReadError α) :
    OmitsOk (orFail location outcome) fun new value => new = [] ∧ outcome = .ok value := by
  cases outcome with
  | ok value => exact OmitsOk.pure ⟨rfl, rfl⟩
  | error error => exact Omits.pure (by simp)

/-- What is left out for the items of a list is told item by item. -/
theorem mapM {items : List α} {action : α → OperationM β} {each : α → β → Prop}
    {told : α → List Diagnostic}
    (h : ∀ item, OmitsOk (action item) fun new value => new = told item ∧ each item value) :
    OmitsOk (items.mapM action) fun new values =>
      new = items.flatMap told ∧ List.Forall₂ each items values := by
  induction items with
  | nil => exact OmitsOk.pure ⟨rfl, .nil⟩
  | cons item items ih =>
    rw [List.mapM_cons]
    refine (h item).bind ?_
    rintro _ value ⟨rfl, hvalue⟩
    refine ih.bind ?_
    rintro _ values ⟨rfl, hvalues⟩
    exact OmitsOk.pure ⟨by rw [List.append_nil, List.flatMap_cons], .cons hvalue hvalues⟩

end OmitsOk

/-! ## Schemas -/

/-- The remarks on schemas tell of nothing that is left out. -/
theorem Remark.tellsOmission_of_isOnSchema {remark : Remark} (h : remark.isOnSchema = true) :
    remark.tellsOmission = false := by
  cases remark <;> first | rfl | cases h

/-- The recursion on schemas tells nothing more than was told. -/
theorem hasTold_law (told : List Diagnostic) :
    TypeLaw (fun _ => True) (HasTold told) fun _ => True where
  names _ h := h
  depth _ h := h
  notice notice hremark h := by
    rw [HasTold, omissions_append, h]
    simp [omissions, Remark.tellsOmission_of_isOnSchema hremark]
  model _ h := h
  primitive _ := trivial
  named _ := trivial
  enum _ _ _ := trivial
  array _ := trivial
  map _ := trivial
  orNone _ := trivial

/-- To leave nothing out is to tell nothing more than was told. -/
theorem thorough_iff {m : SchemaM α} :
    Thorough m ↔ ∀ told, Preserves (HasTold told) m fun _ => True := by
  constructor
  · intro h told
    refine (h told).mono_post ?_
    rintro value after ⟨_, htold, rfl⟩
    exact ⟨⟨⟩, le_rfl, by rwa [List.append_nil] at htold, trivial⟩
  · intro h told
    refine (h told).mono_post ?_
    rintro value after ⟨_, -, htold, -⟩
    exact ⟨[], by rwa [List.append_nil], rfl⟩

/-- A way of finding types that leaves nothing out. -/
def ThoroughFinder (find : TypeFinder) : Prop :=
  ∀ site hint location, Thorough (find site hint location)

/-- However deep the recursion may go, it leaves nothing out. -/
theorem typeOf_thorough (setting : Setting) (depth : Nat) :
    ThoroughFinder (typeOf setting depth) :=
  fun site hint location => thorough_iff.2 fun told =>
    (hasTold_law told).typeOf (covers_all setting.document) depth site trivial hint location

theorem declareModels_thorough (setting : Setting) : Thorough (declareModels setting) := by
  refine Thorough.forM fun schema => ?_
  refine (Thorough.claimed _ _).bind fun name => ?_
  exact (Thorough.insertModel _).bind fun _ => Thorough.modify fun _ => rfl

theorem lowerModels_thorough {setting : Setting} {find : TypeFinder}
    (hfind : ThoroughFinder find) : Thorough (lowerModels setting find) :=
  thorough_iff.2 fun told => (hasTold_law told).lowerModels (covers_all setting.document)
    (fun site _ hint location => thorough_iff.1 (hfind site hint location) told)
    fun _ _ => trivial

end ServantGen.Lowering
