import ServantGen.Proofs.Ledger.Schemas
import ServantGen.Proofs.Lowering.Kinds
import ServantGen.Proofs.Route.Fidelity

/-!
# Operations keep the books

An operation carries its own identifier, those of its parameters, and the enumerations inside
the types of its parameters, its body and its responses. That is all that lowering it claims,
apart from what goes with the models it adds.
-/

namespace ServantGen.Lowering

variable {α β : Type} {setting : Setting} {asked : Question → Prop} {find : TypeFinder}
  {owed : List Naming}

/-- The same for a computation that may find an error; nothing is said of errors. -/
def OwesOk (setting : Setting) (asked : Question → Prop) (owed : List Naming) (m : OperationM α)
    (due : α → List Naming) : Prop :=
  ∀ entry, Contract True (Balanced setting asked entry owed) m.run fun outcome after =>
    ∀ value, outcome = .ok value → Balanced setting asked entry (due value) after

namespace OwesOk

variable {m : OperationM α} {due : α → List Naming}

theorem pure {value : α} (h : owed.Perm (due value)) :
    OwesOk setting asked owed (pure value) due := by
  intro entry
  refine Contract.pure fun state hstate => ?_
  rintro _ ⟨⟩
  exact hstate.congr h

theorem throw {error : BuildError} : OwesOk setting asked owed (throw error : OperationM α) due :=
  fun _ => Contract.pure fun _ _ => by simp

theorem bind {next : α → OperationM β} {last : β → List Naming}
    (first : OwesOk setting asked owed m due)
    (second : ∀ value, OwesOk setting asked (due value) (next value) last) :
    OwesOk setting asked owed (m >>= next) last := by
  intro entry
  refine Contract.bindOutcome ((first entry).mono_post ?_) fun value => second value entry
  intro outcome after h
  cases outcome with
  | ok value => exact h value rfl
  | error error => simp

theorem lift {m : SchemaM α} (h : Owes setting asked owed m due) :
    OwesOk setting asked owed (liftM m : OperationM α) due := by
  intro entry
  refine Contract.lift ((h entry).mono_post ?_)
  rintro value after hafter _ ⟨⟩
  exact hafter

/-- A step outside the state. -/
theorem outcome (outcome : Except BuildError α) :
    OwesOk setting asked owed (liftM outcome : OperationM α) fun _ => owed := by
  cases outcome with
  | ok value => exact OwesOk.pure (List.Perm.refl _)
  | error error => exact OwesOk.throw

theorem read (location : String) (outcome : Except ReadError α) :
    OwesOk setting asked owed (orFail location outcome) fun _ => owed := by
  cases outcome with
  | ok value => exact OwesOk.pure (List.Perm.refl _)
  | error error => exact OwesOk.throw

/-- What each element owes is collected. -/
theorem mapM {items : List α} {action : α → OperationM β} {bill : β → List Naming}
    (h : ∀ item owed, OwesOk setting asked owed (action item) fun value => owed ++ bill value) :
    OwesOk setting asked owed (items.mapM action) fun values => owed ++ values.flatMap bill := by
  induction items generalizing owed with
  | nil => exact OwesOk.pure (by simp)
  | cons item items ih =>
    rw [List.mapM_cons]
    refine (h item owed).bind fun value => ih.bind fun values => OwesOk.pure ?_
    simp

end OwesOk

theorem Owes.mapM {items : List α} {action : α → SchemaM β} {bill : β → List Naming}
    (h : ∀ item owed, Owes setting asked owed (action item) fun value => owed ++ bill value) :
    Owes setting asked owed (items.mapM action) fun values => owed ++ values.flatMap bill := by
  induction items generalizing owed with
  | nil => exact Owes.pure (by simp)
  | cons item items ih =>
    rw [List.mapM_cons]
    refine (h item owed).bind fun value => ih.bind fun values => Owes.pure ?_
    simp

/-! ## Parameters -/

theorem parameterType_owes (hfind : Accounts setting asked find) (parameter : Site)
    (hint location : String) :
    Owes setting asked owed (parameterType find parameter hint location)
      fun type => owed ++ type.namings hint := by
  unfold parameterType
  split
  · exact hfind.owes owed _ hint location
  · exact remarked_owes location (by simp [Remark.kind]) rfl

theorem bodyParameter_owes (hfind : Accounts setting asked find) (operation : String)
    (parameter : Site) (location : String) :
    Owes setting asked owed (bodyParameter find operation parameter location)
      fun body => owed ++ RequestBody.namings operation (some body) := by
  refine (parameterType_owes hfind parameter _ location).bind fun type => Owes.pure ?_
  simp [RequestBody.namings]

theorem ownParameter_owes (hfind : Accounts setting asked find) (operation : String)
    (place : Location) (parameter : Site) (location : String) (scope : NameScope) :
    Owes setting asked owed (ownParameter setting find operation place parameter location scope)
      fun result => owed ++ result.1.namings operation := by
  refine (noted_owes (by simp [Lasting]) scope _ location).bind fun name => ?_
  refine (parameterType_owes hfind parameter _ location).bind fun type => Owes.pure ?_
  simp [Parameter.namings]

theorem lowerParameters_owes (hfind : Accounts setting asked find) (operation location : String)
    (scope : NameScope) (body : Option RequestBody) (sites : List Site) :
    Owes setting asked (owed ++ RequestBody.namings operation body)
      (lowerParameters setting find operation location scope body sites)
      fun lowered => owed ++ lowered.parameters.flatMap (Parameter.namings operation) ++
        RequestBody.namings operation lowered.body := by
  induction sites generalizing owed scope body with
  | nil => exact Owes.pure (by simp)
  | cons parameter rest ih =>
    rw [lowerParameters_cons]
    cases parameterKind parameter with
    | unknown => exact (remark_owes _ (by simp [Remark.kind])).bind fun _ => ih scope body
    | body =>
      cases body with
      | some held =>
        exact (remark_owes _ (by simp [Remark.kind])).bind fun _ => ih scope (some held)
      | none =>
        have hbody := @bodyParameter_owes setting asked find owed hfind operation parameter
        refine Owes.bind ?_ fun body => ih scope (some body)
        simpa [RequestBody.namings] using hbody _
    | own place =>
      refine (ownParameter_owes hfind operation place parameter _ scope).bind ?_
      rintro ⟨lowered, scope⟩
      have hrest := @ih (owed ++ lowered.namings operation) scope body
      refine (hrest.congr ?_).bind fun others => Owes.pure ?_
      · rw [List.append_assoc, List.append_assoc]
        exact List.perm_append_comm.append_left owed
      · simp

/-! ## Routes, bodies and responses -/

theorem lowerRoute_owes (operation : OperationSite) (parameters : List Parameter) :
    OwesOk setting asked owed (lowerRoute setting operation parameters) fun _ => owed := by
  intro entry state hstate
  rw [lowerRoute_run]
  cases (Text.splitOn '/' operation.path).mapM (segmentOf setting operation parameters) with
  | error error => simp
  | ok segments =>
    have hquiet : (mixedNotices setting operation).filter Notice.tellsRenaming = [] := by
      refine List.filter_eq_nil_iff.2 fun notice hnotice => ?_
      obtain ⟨component, -, rfl⟩ := List.mem_map.1 hnotice
      simp [Notice.tellsRenaming, Remark.kind]
    rintro _ ⟨⟩
    refine hstate.step (Books.quiet rfl rfl rfl rfl hquiet) (hstate.1.of_eq rfl rfl) ?_
    simp [addedNamings]

theorem lowerBody_owes (hfind : Accounts setting asked find) (operation : OperationSite)
    (id location : String) :
    OwesOk setting asked owed (lowerBody setting find operation id location)
      fun body => owed ++ RequestBody.namings id body := by
  refine (OwesOk.read location _).bind fun body => ?_
  split
  · exact OwesOk.pure (by simp [RequestBody.namings])
  · split
    · exact OwesOk.pure (by simp [RequestBody.namings])
    · refine (OwesOk.lift (hfind.owes owed _ _ _)).bind fun type => OwesOk.pure ?_
      simp [RequestBody.namings]

theorem bodyOf_owes (hfind : Accounts setting asked find) (operation : OperationSite)
    (id location : String) (parameter : Option RequestBody) :
    OwesOk setting asked (owed ++ RequestBody.namings id parameter)
      (bodyOf setting find operation id location parameter)
      fun body => owed ++ RequestBody.namings id body := by
  cases parameter with
  | some body => exact OwesOk.pure (List.Perm.refl _)
  | none =>
    change OwesOk setting asked (owed ++ []) (lowerBody setting find operation id location) _
    rw [List.append_nil]
    exact lowerBody_owes hfind operation id location

theorem responseType_owes (hfind : Accounts setting asked find) (response : ResponseSite)
    (hint location : String) :
    Owes setting asked owed (responseType find response hint location)
      fun result => owed ++ result.toList.flatMap (DataType.namings hint) := by
  unfold responseType
  split
  · exact Owes.pure (by simp)
  · refine (hfind.owes owed _ hint location).bind fun type => Owes.pure ?_
    simp

theorem lowerHeaders_owes (hfind : Accounts setting asked find) (id location : String)
    (headers : List (String × Site)) :
    Owes setting asked owed (lowerHeaders find id location headers)
      fun lowered => owed ++ lowered.flatMap fun header =>
        header.type.namings (id ++ " " ++ header.name ++ " header") := by
  refine Owes.mapM ?_
  rintro ⟨name, node⟩ owed
  refine (hfind.owes owed _ _ location).bind fun type => Owes.pure ?_
  exact List.Perm.refl _

theorem lowerResponse_owes (hfind : Accounts setting asked find) (id location : String)
    (response : ResponseSite) :
    OwesOk setting asked owed (lowerResponse setting find id location response)
      fun result => owed ++ result.toList.flatMap (Response.namings id) := by
  unfold lowerResponse
  dsimp only
  split
  · refine (OwesOk.lift (remark_owes _ (by simp [Remark.kind]))).bind fun _ => OwesOk.pure ?_
    simp
  · refine (OwesOk.lift (responseType_owes hfind response _ _)).bind fun type => ?_
    refine (OwesOk.read _ _).bind fun sites => ?_
    refine (OwesOk.lift (lowerHeaders_owes hfind id _ sites)).bind fun headers => OwesOk.pure ?_
    simp [Response.namings]

/-! ## Operations -/

theorem lowerOperation_owes (hfind : Accounts setting asked find) (operation : OperationSite) :
    OwesOk setting asked owed (lowerOperation setting find operation)
      fun lowered => owed ++ lowered.namings := by
  refine (OwesOk.lift (freshFunction_owes _ _)).bind fun id => ?_
  refine (OwesOk.read _ _).bind fun sites => ?_
  have hparameters := @lowerParameters_owes setting asked find
    (owed ++ [⟨.function, operation.id?.getD (synthesizedId setting operation), id⟩]) hfind id
    (operationLocation operation) .empty none sites
  refine (OwesOk.lift (hparameters.congr (by simp [RequestBody.namings]))).bind fun lowered => ?_
  refine (lowerRoute_owes operation lowered.parameters).bind fun route => ?_
  refine (bodyOf_owes hfind operation id _ lowered.body).bind fun body => ?_
  refine (OwesOk.read _ _).bind fun sites => ?_
  refine (OwesOk.mapM fun site owed => lowerResponse_owes hfind id _ site).bind
    fun responses => OwesOk.pure ?_
  simp [Operation.namings, Operation.inside, List.filterMap_eq_flatMap_toList,
    List.flatMap_assoc]

theorem lowerOperations_owes (hfind : Accounts setting asked find) :
    OwesOk setting asked owed (lowerOperations setting find)
      fun operations => owed ++ operations.flatMap Operation.namings := by
  refine (OwesOk.outcome _).bind fun sites => ?_
  exact OwesOk.mapM fun site owed => lowerOperation_owes hfind site

/-! ## What an operation is called -/

theorem lowerParameters_areNew (operation location : String) (scope : NameScope)
    (body : Option RequestBody) (sites : List Site) :
    Returns (lowerParameters setting find operation location scope body sites)
      fun lowered => scope.AreNew (lowered.parameters.map Parameter.name) := by
  induction sites generalizing scope body with
  | nil => exact Returns.pure scope.areNew_nil
  | cons parameter rest ih =>
    rw [lowerParameters_cons]
    cases parameterKind parameter with
    | unknown => exact (Returns.any _).bind fun _ _ => ih scope body
    | body => cases body <;> exact (Returns.any _).bind fun _ _ => ih scope _
    | own place =>
      have hown : ∀ location, Returns
          (ownParameter setting find operation place parameter location scope) fun result =>
            let claim := setting.target.freshIn scope (ParameterSite.name parameter) .parameter
            result.1.name = claim.1.name ∧ result.2 = claim.2 := by
        intro location
        refine (noted_name _ _).bind fun name hname => ?_
        exact (Returns.any _).bind fun type _ => Returns.pure ⟨hname, rfl⟩
      refine (hown _).bind ?_
      rintro ⟨lowered, after⟩ ⟨hname, rfl⟩
      refine (ih _ body).bind fun others hothers => Returns.pure ?_
      rw [List.map_cons, hname]
      exact hothers.cons

/-- An operation stands for its place in the document, and its parameters have different
names. -/
structure StandsFor (site : OperationSite) (operation : Operation) : Prop where
  method : operation.method = site.method
  rawPath : operation.rawPath = site.path
  parameters : (operation.parameters.map Parameter.name).Nodup

theorem lowerOperation_standsFor (site : OperationSite) :
    ReturnsOk (lowerOperation setting find site) (StandsFor site) := by
  refine (ReturnsOk.any _).bind fun id _ => ?_
  refine (ReturnsOk.any _).bind fun sites _ => ?_
  refine (Returns.lift (lowerParameters_areNew id _ .empty none sites)).bind
    fun lowered hlowered => ?_
  refine (ReturnsOk.any _).bind fun route _ => ?_
  refine (ReturnsOk.any _).bind fun body _ => ?_
  refine (ReturnsOk.any _).bind fun sites _ => ?_
  refine (ReturnsOk.any _).bind fun responses _ => ?_
  exact ReturnsOk.pure ⟨rfl, rfl, hlowered.once⟩

/-- The operations of a document are lowered one by one in order. -/
theorem lowerOperations_standFor :
    ReturnsOk (lowerOperations setting find) fun operations =>
      ∃ sites, setting.document.operations = .ok sites ∧
        List.Forall₂ StandsFor sites operations := by
  refine (ReturnsOk.outcome _).bind fun sites hsites => ?_
  have hread := Outcomes.eq_ok_of_mapError_eq_ok hsites
  have hall := @ReturnsOk.mapM _ _ sites (lowerOperation setting find) StandsFor
    lowerOperation_standsFor
  exact Contract.mono_post hall fun outcome _ h operations houtcome =>
    ⟨sites, hread, h operations houtcome⟩

end ServantGen.Lowering
