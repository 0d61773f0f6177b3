import ServantGen.Lowering.Run
import ServantGen.Proofs.Lowering.Contract
import ServantGen.Proofs.Lowering.Kinds

/-!
# The questions of a run

While a document is lowered, the type of a schema is asked for again and again. Which questions a
run asks shows in what becomes of it when only some are answered: as long as its own questions are
among them, it is the same run, and as soon as one of its own is not, it has no result. Every
computation that is built from answers asks a finite list of questions in this sense.
-/

namespace ServantGen.Lowering

/-- A question for the type of a schema: how deep the recursion may go below it, the hint and the
location that come with it, and the state in which it is asked. -/
structure Question where
  depth : Nat
  site : Site
  hint : String
  location : String
  before : State

/-- The type of a schema, by the same recursion with some questions answered and others not. -/
def typeOfAmong (setting : Setting) (answered : Question → Bool) : Nat → TypeFinder
  | 0 => fun _ _ _ _ => none
  | depth + 1 => fun site hint location state =>
    if answered ⟨depth, site, hint, location, state⟩ then
      typeStep setting (typeOfAmong setting answered depth) site hint location state
    else none

section Answers

variable {setting : Setting} {answered : Question → Bool} {depth : Nat} {site : Site}
  {hint location : String} {state : State}

theorem typeOfAmong_run :
    (typeOfAmong setting answered (depth + 1) site hint location).run state =
      if answered ⟨depth, site, hint, location, state⟩ then
        (typeStep setting (typeOfAmong setting answered depth) site hint location).run state
      else none := rfl

/-- A question whose answer was found is one of those that are answered. -/
theorem answered_of_run {result : DataType × State}
    (h : (typeOfAmong setting answered (depth + 1) site hint location).run state = some result) :
    answered ⟨depth, site, hint, location, state⟩ = true := by
  rw [typeOfAmong_run] at h
  split at h
  · assumption
  · exact nomatch h

end Answers

/-- When all questions are answered, the recursion is the usual one. -/
theorem typeOfAmong_true (setting : Setting) (depth : Nat) :
    typeOfAmong setting (fun _ => true) depth = typeOf setting depth := by
  induction depth with
  | zero => rfl
  | succ depth ih =>
    funext site hint location state
    exact typeOfAmong_run.trans (by rw [if_pos rfl, ih]; rfl)

/-! ## Computations that ask -/

variable {α β γ : Type}

/-- From a state a computation asks these questions: it depends on their being answered and on
nothing else about what is answered. -/
def AsksFrom (m : (Question → Bool) → SchemaM α) (state : State) (questions : List Question) :
    Prop :=
  ∀ answered, (m answered).run state =
    if questions.all answered then (m fun _ => true).run state else none

/-- From every state a computation asks some questions. -/
def Asks (m : (Question → Bool) → SchemaM α) : Prop :=
  ∀ state, ∃ questions, AsksFrom m state questions

/-- The same for a computation that may find an error. -/
def AsksOk (m : (Question → Bool) → OperationM α) : Prop :=
  Asks fun answered => (m answered).run

/-- A way of finding types all of whose computations ask. -/
def FinderAsks (find : (Question → Bool) → TypeFinder) : Prop :=
  ∀ site hint location, Asks fun answered => find answered site hint location

namespace Asks

variable {m : (Question → Bool) → SchemaM α} {next : (Question → Bool) → α → SchemaM β}

/-- A result that is found with some questions answered is the result. -/
theorem run_eq (h : Asks m) {answered : Question → Bool} {state : State} {result : α × State}
    (hrun : (m answered).run state = some result) : (m fun _ => true).run state = some result := by
  obtain ⟨questions, hasks⟩ := h state
  rw [hasks answered] at hrun
  split at hrun
  · exact hrun
  · exact nomatch hrun

/-- A computation that asks nothing. -/
theorem silent (m : SchemaM α) : Asks fun _ => m :=
  fun _ => ⟨[], fun _ => rfl⟩

theorem bind (first : Asks m) (second : ∀ value, Asks fun answered => next answered value) :
    Asks fun answered => m answered >>= next answered := by
  intro state
  obtain ⟨questions, hfirst⟩ := first state
  cases hrun : (m fun _ => true).run state with
  | none =>
    refine ⟨[], fun answered => ?_⟩
    have hnone : (m answered).run state = none := by
      rw [hfirst answered, hrun, ite_self]
    rw [StateT.run_bind, StateT.run_bind, hnone, hrun]
    rfl
  | some result =>
    obtain ⟨value, middle⟩ := result
    obtain ⟨others, hsecond⟩ := second value middle
    refine ⟨questions ++ others, fun answered => ?_⟩
    rw [StateT.run_bind, StateT.run_bind, hfirst answered, hrun, List.all_append]
    cases questions.all answered with
    | false => rfl
    | true => exact hsecond answered

/-- A first step that asks nothing. -/
theorem after (m : SchemaM α) (second : ∀ value, Asks fun answered => next answered value) :
    Asks fun answered => m >>= next answered :=
  (silent m).bind second

/-- A last step that asks nothing. -/
theorem before {last : α → SchemaM β} (first : Asks m) : Asks fun answered => m answered >>= last :=
  first.bind fun value => silent (last value)

theorem forM {items : List γ} {action : (Question → Bool) → γ → SchemaM PUnit}
    (h : ∀ item, Asks fun answered => action answered item) :
    Asks fun answered => items.forM (action answered) := by
  induction items with
  | nil => exact silent _
  | cons item items ih => exact (h item).bind fun _ => ih

theorem mapM {items : List γ} {action : (Question → Bool) → γ → SchemaM β}
    (h : ∀ item, Asks fun answered => action answered item) :
    Asks fun answered => items.mapM (action answered) := by
  induction items with
  | nil => exact silent _
  | cons item items ih =>
    simp only [List.mapM_cons]
    exact (h item).bind fun value => ih.before

theorem lift (h : Asks m) : AsksOk fun answered => liftM (m answered) :=
  h.bind fun value => silent (Pure.pure (Except.ok value))

end Asks

namespace AsksOk

variable {m : (Question → Bool) → OperationM α} {next : (Question → Bool) → α → OperationM β}

theorem silent (m : OperationM α) : AsksOk fun _ => m :=
  Asks.silent m.run

theorem bind (first : AsksOk m) (second : ∀ value, AsksOk fun answered => next answered value) :
    AsksOk fun answered => m answered >>= next answered := by
  unfold AsksOk
  simp only [ExceptT.run_bind]
  refine Asks.bind first fun outcome => ?_
  cases outcome with
  | ok value => exact second value
  | error error => exact Asks.silent _

/-- A first step that asks nothing. -/
theorem after (m : OperationM α) (second : ∀ value, AsksOk fun answered => next answered value) :
    AsksOk fun answered => m >>= next answered :=
  (silent m).bind second

/-- A last step that asks nothing. -/
theorem before {last : α → OperationM β} (first : AsksOk m) :
    AsksOk fun answered => m answered >>= last :=
  first.bind fun value => silent (last value)

theorem mapM {items : List γ} {action : (Question → Bool) → γ → OperationM β}
    (h : ∀ item, AsksOk fun answered => action answered item) :
    AsksOk fun answered => items.mapM (action answered) := by
  induction items with
  | nil => exact silent _
  | cons item items ih =>
    simp only [List.mapM_cons]
    exact (h item).bind fun value => ih.before

end AsksOk

/-! ## Steps of the recursion -/

section Steps

variable {setting : Setting} {find : (Question → Bool) → TypeFinder} (hfind : FinderAsks find)
include hfind

theorem refType_asks (reference hint location : String) :
    Asks fun answered => refType setting (find answered) reference hint location := by
  refine Asks.after _ fun state => ?_
  cases schemaModel? state.schemaNames reference with
  | some model => exact Asks.silent _
  | none =>
    cases Pointer.find? setting.document.tree reference with
    | none => exact Asks.silent _
    | some target =>
      dsimp only
      split
      · exact Asks.silent _
      · exact Asks.after _ fun _ => (hfind target hint location).before

theorem fieldsOf_asks (model location : String) (required : List String) (scope : NameScope)
    (properties : List (String × Site)) :
    Asks fun answered =>
      fieldsOf setting (find answered) model location required scope properties := by
  induction properties generalizing scope with
  | nil => exact Asks.silent _
  | cons property rest ih =>
    refine Asks.after _ fun name => ?_
    exact (hfind property.2 _ _).bind fun type => (ih _).before

theorem variantOf_asks (model location : String) (position : Nat) (alternative : Site) :
    Asks fun answered =>
      variantOf setting (find answered) model location position alternative := by
  refine Asks.after _ fun state => ?_
  split
  · exact Asks.silent _
  · exact (hfind alternative _ location).before

theorem variantsOf_asks (model location : String) (position : Nat) (alternatives : List Site) :
    Asks fun answered =>
      variantsOf setting (find answered) model location position alternatives := by
  induction alternatives generalizing position with
  | nil => exact Asks.silent _
  | cons alternative rest ih =>
    refine (variantOf_asks hfind model location position alternative).bind fun variant => ?_
    exact (ih (position + 1)).before

theorem shapeOf_asks (name : String) (schema : Site) (location : String) :
    Asks fun answered => shapeOf setting (find answered) name schema location := by
  simp only [shapeOf_eq]
  cases shapeKind schema with
  | reference reference => exact (refType_asks hfind reference name location).before
  | enum values => exact Asks.silent _
  | record => exact (fieldsOf_asks hfind name location _ .empty _).before
  | union alternatives => exact (variantsOf_asks hfind name location 1 alternatives).before
  | empty => exact Asks.silent _
  | type => exact (hfind schema name location).before

theorem modelOf_asks (name raw : String) (schema : Site) (location : String) :
    Asks fun answered => modelOf setting (find answered) name raw schema location :=
  (shapeOf_asks hfind name schema location).before

theorem hoist_asks (schema : Site) (hint location : String) :
    Asks fun answered => hoist setting (find answered) schema hint location := by
  refine Asks.after _ fun name => Asks.after _ fun _ => ?_
  exact (modelOf_asks hfind name hint schema location).before

theorem plainType_asks (schema : Site) (hint location : String) :
    Asks fun answered => plainType (find answered) schema hint location := by
  simp only [plainType_eq]
  cases plainKind schema with
  | array items => exact (hfind items _ location).before
  | map value => exact (hfind value _ location).before
  | _ => exact Asks.silent _

theorem coreType_asks (schema : Site) (hint location : String) :
    Asks fun answered => coreType setting (find answered) schema hint location := by
  simp only [coreType_eq]
  cases typeKind schema with
  | reference reference => exact refType_asks hfind reference hint location
  | enum values => exact Asks.silent _
  | object => exact hoist_asks hfind schema hint location
  | part part => exact hfind part hint location
  | plain => exact plainType_asks hfind schema hint location

theorem typeStep_asks : FinderAsks fun answered => typeStep setting (find answered) :=
  fun schema hint location => (coreType_asks hfind schema hint location).before

end Steps

/-- Besides the questions of its step, a question is asked itself. -/
theorem typeOfAmong_asks (setting : Setting) (depth : Nat) :
    FinderAsks fun answered => typeOfAmong setting answered depth := by
  induction depth with
  | zero => exact fun _ _ _ => Asks.silent _
  | succ depth ih =>
    intro site hint location state
    obtain ⟨questions, hasks⟩ := @typeStep_asks setting _ ih site hint location state
    refine ⟨⟨depth, site, hint, location, state⟩ :: questions, fun answered => ?_⟩
    rw [typeOfAmong_run, typeOfAmong_run, List.all_cons, if_pos rfl]
    cases answered ⟨depth, site, hint, location, state⟩ with
    | false => rfl
    | true => exact hasks answered

/-! ## Documents -/

section Documents

variable {setting : Setting} {find : (Question → Bool) → TypeFinder} (hfind : FinderAsks find)
include hfind

theorem lowerModels_asks : Asks fun answered => lowerModels setting (find answered) := by
  refine Asks.forM fun schema => Asks.after _ fun state => ?_
  cases state.schemaNames.get? schema.1 with
  | none => exact Asks.silent _
  | some name => exact (modelOf_asks hfind name schema.1 schema.2 _).before

theorem parameterType_asks (parameter : Site) (hint location : String) :
    Asks fun answered => parameterType (find answered) parameter hint location := by
  unfold parameterType
  split
  · exact hfind _ hint location
  · exact Asks.silent _

theorem lowerParameters_asks (operation location : String) (scope : NameScope)
    (body : Option RequestBody) (sites : List Site) :
    Asks fun answered =>
      lowerParameters setting (find answered) operation location scope body sites := by
  induction sites generalizing scope body with
  | nil => exact Asks.silent _
  | cons parameter rest ih =>
    simp only [lowerParameters_cons]
    cases parameterKind parameter with
    | unknown => exact Asks.after _ fun _ => ih scope body
    | body =>
      cases body with
      | some held => exact Asks.after _ fun _ => ih scope (some held)
      | none =>
        refine Asks.bind ?_ fun body => ih scope (some body)
        exact (parameterType_asks hfind parameter _ _).before
    | own place =>
      refine Asks.bind ?_ fun result => (ih result.2 body).before
      exact Asks.after _ fun name => (parameterType_asks hfind parameter _ _).before

theorem lowerBody_asks (operation : OperationSite) (id location : String) :
    AsksOk fun answered => lowerBody setting (find answered) operation id location := by
  refine AsksOk.after _ fun body => ?_
  split
  · exact AsksOk.silent _
  · split
    · exact AsksOk.silent _
    · exact (hfind _ _ _).lift.before

theorem responseType_asks (response : ResponseSite) (hint location : String) :
    Asks fun answered => responseType (find answered) response hint location := by
  unfold responseType
  split
  · exact Asks.silent _
  · exact (hfind _ hint location).before

theorem lowerHeaders_asks (id location : String) (headers : List (String × Site)) :
    Asks fun answered => lowerHeaders (find answered) id location headers :=
  Asks.mapM fun _ => (hfind _ _ location).before

theorem lowerResponse_asks (id location : String) (response : ResponseSite) :
    AsksOk fun answered => lowerResponse setting (find answered) id location response := by
  unfold lowerResponse
  dsimp only
  split
  · exact AsksOk.silent _
  · refine (responseType_asks hfind response _ _).lift.bind fun type => ?_
    refine AsksOk.after _ fun sites => ?_
    exact (lowerHeaders_asks hfind id _ sites).lift.before

theorem lowerOperation_asks (operation : OperationSite) :
    AsksOk fun answered => lowerOperation setting (find answered) operation := by
  refine AsksOk.after _ fun id => AsksOk.after _ fun sites => ?_
  refine (lowerParameters_asks hfind id _ .empty none sites).lift.bind fun lowered => ?_
  refine AsksOk.after _ fun route => AsksOk.bind ?_ fun body => AsksOk.after _ fun responses => ?_
  · cases lowered.body with
    | some body => exact AsksOk.silent _
    | none => exact lowerBody_asks hfind operation id _
  · exact (AsksOk.mapM fun response => lowerResponse_asks hfind id _ response).before

theorem lowerWith_asks : AsksOk fun answered => lowerWith setting (find answered) := by
  refine AsksOk.after _ fun _ => (lowerModels_asks hfind).lift.bind fun _ => ?_
  refine AsksOk.bind ?_ fun operations => AsksOk.silent _
  exact AsksOk.after _ fun sites => AsksOk.mapM fun site => lowerOperation_asks hfind site

end Documents

/-- These are the questions of a run: it is the same run when they alone are answered, and has no
result when one of them is not. -/
def QuestionsOf (setting : Setting) (questions : List Question) : Prop :=
  ∀ answered, (lowerWith setting (typeOfAmong setting answered setting.depth)).run.run .initial =
    if questions.all answered then (lowerApi setting).run.run .initial else none

/-- Every run has its questions. -/
theorem exists_questionsOf (setting : Setting) : ∃ questions, QuestionsOf setting questions := by
  obtain ⟨questions, hasks⟩ :=
    @lowerWith_asks setting _ (typeOfAmong_asks setting setting.depth) .initial
  refine ⟨questions, fun answered => (hasks answered).trans ?_⟩
  dsimp only
  rw [typeOfAmong_true, lowerApi]

end ServantGen.Lowering
