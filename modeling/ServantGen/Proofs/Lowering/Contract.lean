import Mathlib.Data.List.Forall2
import Mathlib.Order.Basic
import ServantGen.Lowering.Operations

/-!
# Contracts of lowering

A contract of a computation says what holds of its result and of the state it leaves, and when
it may be stuck, that is, have no result because its depth does not suffice. With `True` for
`stuck` a contract is about results only; with the negation of a condition it says that there
is a result exactly under that condition.

Computations that may find an error are computations whose result is an outcome. Their rules
pass an error on as it is.

Most facts about a run are kept in one form: there is a record of what is known, the state fits
the record, and every computation only adds to it. What was said of earlier results in terms of
the record then stays true.
-/

namespace ServantGen.Lowering

variable {α β : Type}

/-- From every state with `pre` there is a result with `post`, or none and `stuck` holds. -/
def Contract (stuck : Prop) (pre : State → Prop) (m : SchemaM α)
    (post : α → State → Prop) : Prop :=
  ∀ state, pre state →
    match m.run state with
    | none => stuck
    | some (value, after) => post value after

/-- An error skips what follows it. -/
theorem OperationM.run_bind (first : OperationM α) (next : α → OperationM β) (state : State) :
    (first >>= next).run.run state =
      match first.run.run state with
      | none => none
      | some (.error error, after) => some (.error error, after)
      | some (.ok value, after) => (next value).run.run after := by
  rw [ExceptT.run_bind, StateT.run_bind]
  cases first.run.run state with
  | none => rfl
  | some result =>
    obtain ⟨outcome, after⟩ := result
    cases outcome <;> rfl

namespace Contract

variable {stuck stuck' : Prop} {pre pre' : State → Prop} {m : SchemaM α}
variable {post post' : α → State → Prop}

/-- What a contract says of a result. -/
theorem result (h : Contract stuck pre m post) {state after : State} {value : α}
    (hpre : pre state) (hrun : m.run state = some (value, after)) : post value after := by
  simpa only [hrun] using h state hpre

/-- What a contract says when there is no result. -/
theorem no_result (h : Contract stuck pre m post) {state : State} (hpre : pre state)
    (hrun : m.run state = none) : stuck := by
  simpa only [hrun] using h state hpre

/-- Nothing said. -/
theorem any (pre : State → Prop) (m : SchemaM α) :
    Contract True pre m fun _ _ => True := by
  intro state _
  split <;> trivial

theorem consequence (h : Contract stuck pre m post) (hstuck : stuck → stuck')
    (hpre : ∀ state, pre' state → pre state)
    (hpost : ∀ value after, post value after → post' value after) :
    Contract stuck' pre' m post' := by
  intro state hstate
  cases hrun : m.run state with
  | none => exact hstuck (h.no_result (hpre state hstate) hrun)
  | some result => exact hpost _ _ (h.result (hpre state hstate) hrun)

theorem mono_post (h : Contract stuck pre m post)
    (hpost : ∀ value after, post value after → post' value after) :
    Contract stuck pre m post' :=
  h.consequence id (fun _ hpre => hpre) hpost

theorem mono_pre (h : Contract stuck pre m post) (hpre : ∀ state, pre' state → pre state) :
    Contract stuck pre' m post :=
  h.consequence id hpre (fun _ _ hpost => hpost)

/-- Keep a name for the state at the start. -/
theorem with_entry (h : ∀ entry, pre entry → Contract stuck (· = entry) m post) :
    Contract stuck pre m post := by
  intro state hstate
  exact h state hstate state rfl

/-- Keep the run from a state beside what is said of its result. -/
theorem traced (h : Contract stuck pre m post) {entry : State} (hentry : pre entry) :
    Contract stuck (· = entry) m
      fun value after => m.run entry = some (value, after) ∧ post value after := by
  rintro state rfl
  have hstate := h state hentry
  cases hrun : m.run state with
  | none => simpa only [hrun] using hstate
  | some result =>
    rw [hrun] at hstate
    exact ⟨rfl, hstate⟩

theorem pure {value : α} (h : ∀ state, pre state → post value state) :
    Contract stuck pre (pure value) post := h

theorem bind {next : α → SchemaM β} {last : β → State → Prop}
    (first : Contract stuck pre m post)
    (second : ∀ value, Contract stuck (post value) (next value) last) :
    Contract stuck pre (m >>= next) last := by
  intro state hstate
  rw [StateT.run_bind]
  cases hrun : m.run state with
  | none => exact first.no_result hstate hrun
  | some result =>
    obtain ⟨value, middle⟩ := result
    exact second value middle (first.result hstate hrun)

theorem map {change : α → β} {last : β → State → Prop}
    (h : Contract stuck pre m fun value after => last (change value) after) :
    Contract stuck pre (change <$> m) last := by
  intro state hstate
  rw [StateT.run_map]
  cases hrun : m.run state with
  | none => exact h.no_result hstate hrun
  | some result => exact h.result hstate hrun

/-- Reading the state. -/
theorem get_bind {next : State → SchemaM β} {last : β → State → Prop}
    (h : ∀ state, pre state → Contract stuck (· = state) (next state) last) :
    Contract stuck pre (get >>= next) last := by
  intro state hstate
  exact h state hstate state rfl

theorem modify {change : State → State} {post : PUnit → State → Prop}
    (h : ∀ state, pre state → post ⟨⟩ (change state)) :
    Contract stuck pre (modify change : SchemaM PUnit) post := h

/-! ## Outcomes -/

/-- Lift a computation that finds no error. -/
theorem lift {post : Except BuildError α → State → Prop}
    (h : Contract stuck pre m fun value => post (.ok value)) :
    Contract stuck pre (liftM m : OperationM α).run post :=
  h.map

theorem bindOutcome {m : OperationM α} {next : α → OperationM β} {middle : α → State → Prop}
    {last : Except BuildError β → State → Prop}
    (first : Contract stuck pre m.run fun outcome after =>
      match outcome with
      | .ok value => middle value after
      | .error error => last (.error error) after)
    (second : ∀ value, Contract stuck (middle value) (next value).run last) :
    Contract stuck pre (m >>= next).run last := by
  rw [ExceptT.run_bind]
  refine first.bind ?_
  intro outcome
  cases outcome with
  | ok value => exact second value
  | error error => exact Contract.pure fun _ h => h

end Contract

/-! ## Results alone -/

/-- Whatever state a computation starts in, its result is right. -/
def Returns (m : SchemaM α) (right : α → Prop) : Prop :=
  Contract True (fun _ => True) m fun value _ => right value

/-- The same for a computation that may find an error; nothing is said of errors. -/
def ReturnsOk (m : OperationM α) (right : α → Prop) : Prop :=
  Returns m.run fun outcome => ∀ value, outcome = .ok value → right value

namespace Returns

variable {m : SchemaM α} {right : α → Prop}

theorem of_run (h : Returns m right) {state after : State} {value : α}
    (hrun : m.run state = some (value, after)) : right value :=
  Contract.result h trivial hrun

theorem any (m : SchemaM α) : Returns m fun _ => True :=
  Contract.any _ m

/-- Whatever is returned is the result of a run. -/
theorem and_traced (h : Returns m right) :
    Returns m fun value => right value ∧ ∃ before after, m.run before = some (value, after) :=
  Contract.with_entry fun entry _ =>
    (Contract.traced h trivial).mono_post fun _ after hrun => ⟨hrun.2, entry, after, hrun.1⟩

theorem traced (m : SchemaM α) :
    Returns m fun value => ∃ before after, m.run before = some (value, after) :=
  Contract.mono_post (any m).and_traced fun _ _ h => h.2

theorem pure {value : α} (h : right value) : Returns (pure value) right :=
  Contract.pure fun _ _ => h

theorem bind {next : α → SchemaM β} {last : β → Prop} (first : Returns m right)
    (second : ∀ value, right value → Returns (next value) last) : Returns (m >>= next) last := by
  refine Contract.bind first fun value state hvalue => ?_
  exact second value hvalue state trivial

theorem get_bind {next : State → SchemaM β} {last : β → Prop}
    (h : ∀ state, Returns (next state) last) : Returns (get >>= next) last :=
  fun state _ => h state state trivial

/-- Results correspond to the elements they were found for. -/
theorem mapM {items : List α} {action : α → SchemaM β} {each : α → β → Prop}
    (h : ∀ item, Returns (action item) (each item)) :
    Returns (items.mapM action) (List.Forall₂ each items) := by
  induction items with
  | nil => exact Returns.pure .nil
  | cons item items ih =>
    rw [List.mapM_cons]
    refine (h item).bind fun value hvalue => ih.bind fun values hvalues => ?_
    exact Returns.pure (.cons hvalue hvalues)

theorem lift (h : Returns m right) : ReturnsOk (liftM m) right := by
  refine Contract.lift (Contract.mono_post h ?_)
  rintro value _ hvalue _ ⟨⟩
  exact hvalue

end Returns

namespace ReturnsOk

variable {m : OperationM α} {right : α → Prop}

theorem any (m : OperationM α) : ReturnsOk m fun _ => True :=
  Contract.mono_post (Contract.any _ _) fun _ _ _ _ _ => trivial

theorem pure {value : α} (h : right value) : ReturnsOk (pure value) right := by
  refine Returns.pure ?_
  rintro _ ⟨⟩
  exact h

theorem bind {next : α → OperationM β} {last : β → Prop} (first : ReturnsOk m right)
    (second : ∀ value, right value → ReturnsOk (next value) last) :
    ReturnsOk (m >>= next) last := by
  unfold ReturnsOk
  rw [ExceptT.run_bind]
  refine Returns.bind first fun outcome houtcome => ?_
  cases outcome with
  | ok value => exact second value (houtcome value rfl)
  | error error => exact Returns.pure (by simp)

theorem outcome (outcome : Except BuildError α) :
    ReturnsOk (liftM outcome : OperationM α) fun value => outcome = .ok value := by
  cases outcome with
  | ok value => exact ReturnsOk.pure rfl
  | error error => exact Returns.pure (by simp)

/-- Results correspond to the elements they were found for. -/
theorem mapM {items : List α} {action : α → OperationM β} {each : α → β → Prop}
    (h : ∀ item, ReturnsOk (action item) (each item)) :
    ReturnsOk (items.mapM action) (List.Forall₂ each items) := by
  induction items with
  | nil => exact ReturnsOk.pure .nil
  | cons item items ih =>
    rw [List.mapM_cons]
    refine (h item).bind fun value hvalue => ih.bind fun values hvalues => ?_
    exact ReturnsOk.pure (.cons hvalue hvalues)

end ReturnsOk

/-! ## Identifiers -/

def renamedNotices (identifier : Identifier) (location : String) : List Notice :=
  (identifier.collision.map fun collision => ⟨.renamed collision, location⟩).toList

/-- An identifier is answered as it is; a notice is added if it was renamed. -/
theorem noted_run (identifier : Identifier) (location : String) (state : State) :
    (noted identifier location).run state = some (identifier.name,
      { state with notices := state.notices ++ renamedNotices identifier location }) := by
  obtain ⟨name, collision⟩ := identifier
  cases collision with
  | none => simp [noted, renamedNotices]
  | some collision => rfl

/-- A claim changes the book of names and adds a notice if the identifier was renamed. -/
theorem claimed_run (claim : NameBook → Identifier × NameBook) (location : String)
    (state : State) :
    (claimed claim location).run state = some ((claim state.names).1.name,
      { state with
        names := (claim state.names).2
        notices := state.notices ++ renamedNotices (claim state.names).1 location }) :=
  noted_run (claim state.names).1 location { state with names := (claim state.names).2 }

/-! ## Growing knowledge -/

/-- The record of facts that need none. -/
structure NoRecord where

instance : Preorder NoRecord where
  le _ _ := True
  le_refl _ := trivial
  le_trans _ _ _ _ _ := trivial

section Growth

variable {κ : Type} [Preorder κ]

/-- A computation that starts in a state which fits what is `known` ends, if it ends, in a state
which fits something more, and its result is right by what is known then. -/
def Grows (fits : κ → State → Prop) (known : κ) (m : SchemaM α) (post : κ → α → Prop) : Prop :=
  Contract True (fits known) m fun value after =>
    ∃ more, known ≤ more ∧ fits more after ∧ post more value

/-- The same for a computation that may find an error; nothing is said of errors. -/
def GrowsOk (fits : κ → State → Prop) (known : κ) (m : OperationM α) (post : κ → α → Prop) :
    Prop :=
  Grows fits known m.run fun more outcome => ∀ value, outcome = .ok value → post more value

namespace Grows

variable {fits : κ → State → Prop} {known : κ} {m : SchemaM α} {post : κ → α → Prop}

theorem pure {value : α} (h : post known value) : Grows fits known (pure value) post :=
  Contract.pure fun _ hfits => ⟨known, le_refl known, hfits, h⟩

theorem bind {next : α → SchemaM β} {last : κ → β → Prop} (first : Grows fits known m post)
    (second : ∀ more value, known ≤ more → post more value → Grows fits more (next value) last) :
    Grows fits known (m >>= next) last := by
  refine Contract.bind first ?_
  rintro value middle ⟨more, hle, hfits, hvalue⟩
  refine Contract.mono_post (second more value hle hvalue) ?_ middle hfits
  rintro result after ⟨most, hmost, hafter, hresult⟩
  exact ⟨most, le_trans hle hmost, hafter, hresult⟩

theorem get_bind {next : State → SchemaM β} {last : κ → β → Prop}
    (h : ∀ state, fits known state → Grows fits known (next state) last) :
    Grows fits known (get >>= next) last :=
  Contract.get_bind fun state hfits => Contract.mono_pre (h state hfits) fun _ heq => heq ▸ hfits

/-- A change of the state that does not touch what is known. -/
theorem modify_bind {change : State → State} {next : PUnit → SchemaM β} {last : κ → β → Prop}
    (hfits : ∀ state, fits known state → fits known (change state))
    (h : Grows fits known (next ⟨⟩) last) :
    Grows fits known ((modify change : SchemaM PUnit) >>= next) last :=
  fun state hstate => h (change state) (hfits state hstate)

theorem modify {change : State → State} {post : κ → PUnit → Prop}
    (hfits : ∀ state, fits known state → fits known (change state)) (hpost : post known ⟨⟩) :
    Grows fits known (modify change : SchemaM PUnit) post :=
  Contract.modify fun state h => ⟨known, le_refl known, hfits state h, hpost⟩

theorem lift (h : Grows fits known m post) : GrowsOk fits known (liftM m : OperationM α) post := by
  refine Contract.lift (Contract.mono_post h ?_)
  rintro value after ⟨more, hle, hfits, hvalue⟩
  refine ⟨more, hle, hfits, ?_⟩
  rintro _ ⟨⟩
  exact hvalue

theorem forM {items : List α} {action : α → SchemaM PUnit}
    (h : ∀ item ∈ items, ∀ more, known ≤ more → Grows fits more (action item) fun _ _ => True) :
    Grows fits known (items.forM action) fun _ _ => True := by
  induction items generalizing known with
  | nil => exact Grows.pure trivial
  | cons item items ih =>
    obtain ⟨hitem, hitems⟩ := List.forall_mem_cons.1 h
    refine (hitem known (le_refl known)).bind ?_
    intro more _ hle _
    exact ih fun other hmem most hmost => hitems other hmem most (le_trans hle hmost)

/-- Results that stay right when more is known can be collected. -/
theorem mapM {items : List α} {action : α → SchemaM β} {last : κ → β → Prop}
    (hmono : ∀ known more value, known ≤ more → last known value → last more value)
    (h : ∀ item ∈ items, ∀ more, known ≤ more → Grows fits more (action item) last) :
    Grows fits known (items.mapM action) fun more values => ∀ value ∈ values, last more value := by
  induction items generalizing known with
  | nil => exact Grows.pure (by simp)
  | cons item items ih =>
    obtain ⟨hitem, hitems⟩ := List.forall_mem_cons.1 h
    rw [List.mapM_cons]
    refine (hitem known (le_refl known)).bind ?_
    intro more value hle hvalue
    refine (ih fun other hmem most hmost => hitems other hmem most (le_trans hle hmost)).bind ?_
    intro most values hmost hvalues
    refine Grows.pure ?_
    exact List.forall_mem_cons.2 ⟨hmono more most value hmost hvalue, hvalues⟩

end Grows

namespace GrowsOk

variable {fits : κ → State → Prop} {known : κ} {m : OperationM α} {post : κ → α → Prop}

theorem pure {value : α} (h : post known value) : GrowsOk fits known (pure value) post := by
  refine Grows.pure ?_
  rintro _ ⟨⟩
  exact h

theorem bind {next : α → OperationM β} {last : κ → β → Prop} (first : GrowsOk fits known m post)
    (second : ∀ more value, known ≤ more → post more value → GrowsOk fits more (next value) last) :
    GrowsOk fits known (m >>= next) last := by
  unfold GrowsOk
  rw [ExceptT.run_bind]
  refine Grows.bind first ?_
  intro more outcome hle houtcome
  cases outcome with
  | ok value => exact second more value hle (houtcome value rfl)
  | error error => exact Grows.pure (by simp)

theorem throw {error : BuildError} : GrowsOk fits known (throw error : OperationM α) post :=
  Grows.pure (by simp)

/-- A step outside the state. -/
theorem outcome (outcome : Except BuildError α) :
    GrowsOk fits known (liftM outcome : OperationM α) fun _ value => outcome = .ok value := by
  cases outcome with
  | ok value => exact GrowsOk.pure rfl
  | error error => exact GrowsOk.throw

theorem mapM {items : List α} {action : α → OperationM β} {last : κ → β → Prop}
    (hmono : ∀ known more value, known ≤ more → last known value → last more value)
    (h : ∀ item ∈ items, ∀ more, known ≤ more → GrowsOk fits more (action item) last) :
    GrowsOk fits known (items.mapM action) fun more values =>
      ∀ value ∈ values, last more value := by
  induction items generalizing known with
  | nil => exact GrowsOk.pure (by simp)
  | cons item items ih =>
    obtain ⟨hitem, hitems⟩ := List.forall_mem_cons.1 h
    rw [List.mapM_cons]
    refine (hitem known (le_refl known)).bind ?_
    intro more value hle hvalue
    refine (ih fun other hmem most hmost => hitems other hmem most (le_trans hle hmost)).bind ?_
    intro most values hmost hvalues
    refine GrowsOk.pure ?_
    exact List.forall_mem_cons.2 ⟨hmono more most value hmost hvalue, hvalues⟩

/-- A result that is made from the state at the end. -/
theorem finish {make : α → State → β} {last : β → State → Prop}
    (h : GrowsOk fits known m post)
    (hlast : ∀ more value after, fits more after → post more value →
      last (make value after) after) :
    Contract True (fits known) (do return make (← m) (← get) : OperationM β).run
      fun outcome after => ∀ result, outcome = .ok result → last result after := by
  intro state hstate
  rw [OperationM.run_bind]
  cases hrun : m.run.run state with
  | none => exact trivial
  | some result =>
    obtain ⟨outcome, after⟩ := result
    obtain ⟨more, -, hfits, hvalue⟩ := h.result hstate hrun
    cases outcome with
    | error error => simp
    | ok value =>
      rintro _ ⟨⟩
      exact hlast more value after hfits (hvalue value rfl)

end GrowsOk

end Growth

end ServantGen.Lowering
