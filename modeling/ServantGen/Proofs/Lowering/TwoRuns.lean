import ServantGen.Lowering.Run
import ServantGen.Proofs.Lowering.Contract

/-!
# Two runs side by side

Some properties compare two runs: of two documents, or for two targets. Two computations are kept
together by a relation between their states, which may say more the longer they run, and the same
relation tells which results correspond. They agree when the relation is equality: from every state
they end alike. Nothing is said of a computation without a result, so the rules need no measure of
how deep either of them goes.
-/

namespace ServantGen.Lowering

variable {α β γ δ : Type}

/-! ## Steps of a run that finds no error -/

theorem exists_of_run_bind_eq_ok {m : OperationM α} {next : α → OperationM β} {state after : State}
    {result : β} (h : (m >>= next).run.run state = some (.ok result, after)) :
    ∃ value middle, m.run.run state = some (.ok value, middle) ∧
      (next value).run.run middle = some (.ok result, after) := by
  rw [OperationM.run_bind] at h
  cases hm : m.run.run state with
  | none => simp [hm] at h
  | some found =>
    obtain ⟨outcome, middle⟩ := found
    rw [hm] at h
    cases outcome with
    | error error => simp at h
    | ok value => exact ⟨value, middle, rfl, h⟩

theorem run_of_liftM_eq_ok {m : SchemaM α} {state after : State} {value : α}
    (h : (liftM m : OperationM α).run.run state = some (.ok value, after)) :
    m.run state = some (value, after) := by
  have hrun : (liftM m : OperationM α).run.run state =
      (Except.ok <$> m : SchemaM (Except BuildError α)).run state := rfl
  rw [hrun, StateT.run_map] at h
  obtain ⟨⟨own, last⟩, hm, heq⟩ := Option.map_eq_some_iff.1 h
  obtain ⟨hvalue, rfl⟩ := Prod.mk.inj heq
  obtain rfl := Except.ok.inj hvalue
  exact hm

/-! ## Computations that are kept together -/

section Together

variable {κ : Type} [Preorder κ]

/-- From states that fit together by what is `known`, two computations that both end leave states
that fit together by something more, and their results are right by what is known then. -/
def Together (fits : κ → State → State → Prop) (known : κ) (m m' : SchemaM α)
    (post : κ → α → α → Prop) : Prop :=
  ∀ state state', fits known state state' → ∀ result result',
    m.run state = some result → m'.run state' = some result' →
    ∃ more, known ≤ more ∧ fits more result.2 result'.2 ∧ post more result.1 result'.1

/-- The same for computations that may find an error; nothing is said when one of them does. -/
def TogetherOk (fits : κ → State → State → Prop) (known : κ) (m m' : OperationM α)
    (post : κ → α → α → Prop) : Prop :=
  ∀ state state', fits known state state' → ∀ value after value' after',
    m.run.run state = some (.ok value, after) → m'.run.run state' = some (.ok value', after') →
    ∃ more, known ≤ more ∧ fits more after after' ∧ post more value value'

namespace Together

variable {fits : κ → State → State → Prop} {known : κ} {m m' : SchemaM α}
variable {post : κ → α → α → Prop} {next next' : α → SchemaM β} {last : κ → β → β → Prop}

theorem mono_post {post' : κ → α → α → Prop} (h : Together fits known m m' post)
    (hpost : ∀ more value value', known ≤ more → post more value value' → post' more value value') :
    Together fits known m m' post' := by
  intro state state' hfits result result' hrun hrun'
  obtain ⟨more, hle, hafter, hvalue⟩ := h state state' hfits result result' hrun hrun'
  exact ⟨more, hle, hafter, hpost more _ _ hle hvalue⟩

theorem pure {value value' : α} (h : post known value value') :
    Together fits known (pure value) (pure value') post := by
  rintro state state' hfits _ _ ⟨⟩ ⟨⟩
  exact ⟨known, le_refl known, hfits, h⟩

theorem bind (first : Together fits known m m' post)
    (second : ∀ more value value', known ≤ more → post more value value' →
      Together fits more (next value) (next' value') last) :
    Together fits known (m >>= next) (m' >>= next') last := by
  intro state state' hfits result result' hrun hrun'
  rw [StateT.run_bind] at hrun hrun'
  obtain ⟨⟨value, middle⟩, hm, hrest⟩ := Option.bind_eq_some_iff.1 hrun
  obtain ⟨⟨value', middle'⟩, hm', hrest'⟩ := Option.bind_eq_some_iff.1 hrun'
  obtain ⟨more, hle, hmiddle, hvalue⟩ := first state state' hfits _ _ hm hm'
  obtain ⟨most, hmost, hafter, hresult⟩ :=
    second more value value' hle hvalue middle middle' hmiddle _ _ hrest hrest'
  exact ⟨most, le_trans hle hmost, hafter, hresult⟩

theorem get_bind {next next' : State → SchemaM β}
    (h : ∀ state state', fits known state state' →
      Together fits known (next state) (next' state') last) :
    Together fits known (get >>= next) (get >>= next') last :=
  fun state state' hfits => h state state' hfits state state' hfits

theorem modify {change change' : State → State} {post : κ → PUnit → PUnit → Prop}
    (hfits : ∀ state state', fits known state state' →
      fits known (change state) (change' state')) (hpost : post known ⟨⟩ ⟨⟩) :
    Together fits known (modify change : SchemaM PUnit) (modify change') post := by
  rintro state state' h _ _ ⟨⟩ ⟨⟩
  exact ⟨known, le_refl known, hfits state state' h, hpost⟩

theorem forM {items : List γ} {action action' : γ → SchemaM PUnit}
    (h : ∀ item ∈ items, ∀ more, known ≤ more →
      Together fits more (action item) (action' item) fun _ _ _ => True) :
    Together fits known (items.forM action) (items.forM action') fun _ _ _ => True := by
  induction items generalizing known with
  | nil => exact Together.pure trivial
  | cons item items ih =>
    obtain ⟨hitem, hitems⟩ := List.forall_mem_cons.1 h
    refine (hitem known (le_refl known)).bind fun more _ _ hle _ => ?_
    exact ih fun other hmem most hmost => hitems other hmem most (le_trans hle hmost)

/-- Results that stay right when more is known correspond to each other. -/
theorem mapM {items : List γ} {action action' : γ → SchemaM β}
    (hmono : ∀ known more value value', known ≤ more → last known value value' →
      last more value value')
    (h : ∀ item ∈ items, ∀ more, known ≤ more →
      Together fits more (action item) (action' item) last) :
    Together fits known (items.mapM action) (items.mapM action')
      fun more => List.Forall₂ (last more) := by
  induction items generalizing known with
  | nil => exact Together.pure .nil
  | cons item items ih =>
    obtain ⟨hitem, hitems⟩ := List.forall_mem_cons.1 h
    rw [List.mapM_cons, List.mapM_cons]
    refine (hitem known (le_refl known)).bind fun more value value' hle hvalue => ?_
    refine (ih fun other hmem most hmost => hitems other hmem most (le_trans hle hmost)).bind
      fun most values values' hmost hvalues => ?_
    exact Together.pure (.cons (hmono more most value value' hmost hvalue) hvalues)

theorem lift (h : Together fits known m m' post) :
    TogetherOk fits known (liftM m) (liftM m') post :=
  fun state state' hfits _ _ _ _ hrun hrun' =>
    h state state' hfits _ _ (run_of_liftM_eq_ok hrun) (run_of_liftM_eq_ok hrun')

end Together

namespace TogetherOk

variable {fits : κ → State → State → Prop} {known : κ} {m m' : OperationM α}
variable {post : κ → α → α → Prop} {next next' : α → OperationM β} {last : κ → β → β → Prop}

theorem pure {value value' : α} (h : post known value value') :
    TogetherOk fits known (pure value) (pure value') post := by
  rintro state state' hfits _ _ _ _ ⟨⟩ ⟨⟩
  exact ⟨known, le_refl known, hfits, h⟩

theorem bind (first : TogetherOk fits known m m' post)
    (second : ∀ more value value', known ≤ more → post more value value' →
      TogetherOk fits more (next value) (next' value') last) :
    TogetherOk fits known (m >>= next) (m' >>= next') last := by
  intro state state' hfits result after result' after' hrun hrun'
  obtain ⟨value, middle, hm, hrest⟩ := exists_of_run_bind_eq_ok hrun
  obtain ⟨value', middle', hm', hrest'⟩ := exists_of_run_bind_eq_ok hrun'
  obtain ⟨more, hle, hmiddle, hvalue⟩ := first state state' hfits _ _ _ _ hm hm'
  obtain ⟨most, hmost, hafter, hresult⟩ :=
    second more value value' hle hvalue middle middle' hmiddle _ _ _ _ hrest hrest'
  exact ⟨most, le_trans hle hmost, hafter, hresult⟩

/-- Both go on with what both read. -/
theorem read {location location' : String} {outcome : Except ReadError α}
    (h : ∀ value, TogetherOk fits known (next value) (next' value) last) :
    TogetherOk fits known (orFail location outcome >>= next) (orFail location' outcome >>= next')
      last := by
  cases outcome with
  | ok value => exact h value
  | error error => exact fun state state' hfits _ _ _ _ hrun => nomatch hrun

theorem mapM {items : List γ} {action action' : γ → OperationM β}
    (hmono : ∀ known more value value', known ≤ more → last known value value' →
      last more value value')
    (h : ∀ item ∈ items, ∀ more, known ≤ more →
      TogetherOk fits more (action item) (action' item) last) :
    TogetherOk fits known (items.mapM action) (items.mapM action')
      fun more => List.Forall₂ (last more) := by
  induction items generalizing known with
  | nil => exact TogetherOk.pure .nil
  | cons item items ih =>
    obtain ⟨hitem, hitems⟩ := List.forall_mem_cons.1 h
    rw [List.mapM_cons, List.mapM_cons]
    refine (hitem known (le_refl known)).bind fun more value value' hle hvalue => ?_
    refine (ih fun other hmem most hmost => hitems other hmem most (le_trans hle hmost)).bind
      fun most values values' hmost hvalues => ?_
    exact TogetherOk.pure (.cons (hmono more most value value' hmost hvalue) hvalues)

end TogetherOk

end Together

/-! ## Computations that agree -/

/-- From every state two computations have the same result, if both have one. -/
def Agree (m m' : SchemaM α) : Prop :=
  Together (fun _ : NoRecord => Eq) ⟨⟩ m m' fun _ => Eq

/-- The same for computations that may find an error. -/
def AgreeOk (m m' : OperationM α) : Prop :=
  Agree m.run m'.run

namespace Agree

variable {m m' : SchemaM α} {next next' : α → SchemaM β}

theorem result_eq (h : Agree m m') {state : State} {result result' : α × State}
    (hrun : m.run state = some result) (hrun' : m'.run state = some result') :
    result' = result := by
  obtain ⟨-, -, hafter, hvalue⟩ := h state state rfl result result' hrun hrun'
  exact (Prod.ext hvalue hafter).symm

theorem refl (m : SchemaM α) : Agree m m := by
  rintro state _ rfl result result' h h'
  obtain rfl := Option.some.inj (h.symm.trans h')
  exact ⟨⟨⟩, le_rfl, rfl, rfl⟩

/-- Nothing is said where the first computation has no result. -/
theorem of_eq_none (h : ∀ state, m.run state = none) : Agree m m' :=
  fun state _ _ _ _ hrun => nomatch (h state).symm.trans hrun

theorem symm (h : Agree m m') : Agree m' m := by
  rintro state _ rfl result result' hrun hrun'
  obtain rfl := h.result_eq hrun' hrun
  exact ⟨⟨⟩, le_rfl, rfl, rfl⟩

theorem bind (h : Agree m m') (hnext : ∀ value, Agree (next value) (next' value)) :
    Agree (m >>= next) (m' >>= next') :=
  Together.bind h fun _ value _ _ heq => heq ▸ hnext value

/-- A first step that both take. -/
theorem after (hnext : ∀ value, Agree (next value) (next' value)) :
    Agree (m >>= next) (m >>= next') :=
  (refl m).bind hnext

/-- A last step that both take. -/
theorem before (h : Agree m m') : Agree (m >>= next) (m' >>= next) :=
  h.bind fun value => refl (next value)

theorem forM {items : List γ} {action action' : γ → SchemaM PUnit}
    (h : ∀ item ∈ items, Agree (action item) (action' item)) :
    Agree (items.forM action) (items.forM action') :=
  (Together.forM fun item hitem _ _ => (h item hitem).mono_post fun _ _ _ _ _ => trivial).mono_post
    fun _ _ _ _ _ => rfl

theorem mapM {items : List γ} {action action' : γ → SchemaM β}
    (h : ∀ item ∈ items, Agree (action item) (action' item)) :
    Agree (items.mapM action) (items.mapM action') :=
  (Together.mapM (fun _ _ _ _ _ heq => heq) fun item hitem _ _ => h item hitem).mono_post
    fun _ _ _ _ => List.forall₂_eq_eq_eq ▸ id

theorem lift (h : Agree m m') : AgreeOk (liftM m) (liftM m') :=
  h.bind fun value => refl (Pure.pure (Except.ok value))

end Agree

namespace AgreeOk

variable {m m' : OperationM α} {next next' : α → OperationM β}

theorem refl (m : OperationM α) : AgreeOk m m :=
  Agree.refl m.run

theorem bind (h : AgreeOk m m') (hnext : ∀ value, AgreeOk (next value) (next' value)) :
    AgreeOk (m >>= next) (m' >>= next') := by
  unfold AgreeOk
  rw [ExceptT.run_bind, ExceptT.run_bind]
  refine Agree.bind h fun outcome => ?_
  cases outcome with
  | ok value => exact hnext value
  | error error => exact Agree.refl _

theorem after (hnext : ∀ value, AgreeOk (next value) (next' value)) :
    AgreeOk (m >>= next) (m >>= next') :=
  (refl m).bind hnext

theorem before (h : AgreeOk m m') : AgreeOk (m >>= next) (m' >>= next) :=
  h.bind fun value => refl (next value)

/-- Both go on with what both read. -/
theorem read {location : String} {outcome : Except ReadError α}
    (h : ∀ value, outcome = .ok value → AgreeOk (next value) (next' value)) :
    AgreeOk (orFail location outcome >>= next) (orFail location outcome >>= next') := by
  cases outcome with
  | ok value => exact h value rfl
  | error error => exact refl _

theorem mapM {items : List γ} {action action' : γ → OperationM β}
    (h : ∀ item ∈ items, AgreeOk (action item) (action' item)) :
    AgreeOk (items.mapM action) (items.mapM action') := by
  induction items with
  | nil => exact refl _
  | cons item items ih =>
    obtain ⟨hitem, hitems⟩ := List.forall_mem_cons.1 h
    rw [List.mapM_cons, List.mapM_cons]
    exact hitem.bind fun _ => (ih hitems).before

end AgreeOk

/-! ## Stages of a run -/

/-- The stages of a run that ends with an interface: named schemas are declared, then lowered, and
then the operations are lowered one by one. -/
structure Stages (setting : Setting) (find : TypeFinder) (api : Api) (final : State)
    (sites : List OperationSite) (placed filled : State) : Prop where
  declare : (declareModels setting).run .initial = some (⟨⟩, placed)
  lower : (lowerModels setting find).run placed = some (⟨⟩, filled)
  read : setting.document.operations = .ok sites
  operations : (sites.mapM (lowerOperation setting find)).run.run filled =
    some (.ok api.operations, final)
  models : api.models = final.models
  info : api.info = ⟨setting.document.info.title, setting.document.info.version,
    setting.document.info.description⟩

theorem exists_stages {setting : Setting} {find : TypeFinder} {api : Api} {final : State}
    (h : (lowerWith setting find).run.run .initial = some (.ok api, final)) :
    ∃ sites placed filled, Stages setting find api final sites placed filled := by
  obtain ⟨⟨⟩, placed, hdeclare, h⟩ := exists_of_run_bind_eq_ok h
  obtain ⟨⟨⟩, filled, hlower, h⟩ := exists_of_run_bind_eq_ok h
  obtain ⟨operations, last, hoperations, h⟩ := exists_of_run_bind_eq_ok h
  obtain ⟨heq, rfl⟩ := Prod.mk.inj (Option.some.inj h)
  obtain rfl := Except.ok.inj heq
  obtain ⟨sites, start, hsites, hmapped⟩ := exists_of_run_bind_eq_ok hoperations
  obtain ⟨hread, rfl⟩ : setting.document.operations = .ok sites ∧ start = filled := by
    cases hread : setting.document.operations with
    | error error =>
      rw [hread] at hsites
      have hwrong : (.error (.ofReadError error) : Except BuildError _) = .ok sites :=
        (Prod.mk.inj (Option.some.inj hsites)).1
      exact nomatch hwrong
    | ok own =>
      rw [hread] at hsites
      obtain ⟨hown, rfl⟩ := Prod.mk.inj (Option.some.inj hsites)
      exact ⟨congrArg Except.ok (Except.ok.inj hown), rfl⟩
  exact ⟨sites, placed, start, run_of_liftM_eq_ok hdeclare, run_of_liftM_eq_ok hlower, hread,
    hmapped, rfl, rfl⟩

end ServantGen.Lowering
