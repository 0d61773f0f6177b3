import ServantGen.Proofs.Ledger.Books
import ServantGen.Proofs.Lowering.Kinds

/-!
# Schemas keep the books

Each step of the recursion on schemas keeps the books, provided that the way of finding the types
of other schemas does: whatever it claims is carried by its answer or by a model it adds. The
depth of the recursion plays no part.
-/

namespace ServantGen.Lowering

/-- A way of finding types with some depth that answers no question but those that are asked, and
whose answers carry what was claimed for them. -/
structure Accounts (setting : Setting) (asked : Question → Prop) (find : TypeFinder) : Prop where
  among : ∃ answered depth, find = typeOfAmong setting answered depth ∧
    ∀ question, answered question = true → asked question
  owes : ∀ owed site hint location, Owes setting asked owed (find site hint location)
    fun type => owed ++ type.namings hint

section Steps

variable {setting : Setting} {asked : Question → Prop} {recur : TypeFinder} {owed : List Naming}

theorem Balanced.earlier {entry state : State} (h : Balanced setting asked entry owed state) :
    Earlier entry state := by
  obtain ⟨-, claimed, added, hbooks, -⟩ := h
  exact hbooks.earlier

theorem Accounts.earlier (h : Accounts setting asked recur) {state after : State} {site : Site}
    {hint location : String} {type : DataType} (hsound : Sound state)
    (hrun : (recur site hint location).run state = some (type, after)) : Earlier state after :=
  ((h.owes [] site hint location state).result (Balanced.start hsound) hrun).earlier

/-- A type without enumerations. -/
theorem plain_owes {type : DataType} {hint : String} (h : type.namings hint = []) :
    Owes setting asked owed (pure type) fun type => owed ++ type.namings hint := by
  refine Owes.pure ?_
  rw [h, List.append_nil]

theorem refType_owes (hrecur : Accounts setting asked recur) (reference hint location : String) :
    Owes setting asked owed (refType setting recur reference hint location)
      fun type => owed ++ type.namings hint := by
  refine Owes.get_bind fun state => ?_
  split
  · exact plain_owes rfl
  · split
    · exact remarked_owes location (by simp [Remark.kind]) rfl
    · split
      · exact remarked_owes location (by simp [Remark.kind]) rfl
      · refine (inlineDepth_owes (· + 1)).bind fun _ => ?_
        refine (hrecur.owes owed _ hint location).bind fun type => ?_
        exact (inlineDepth_owes (· - 1)).bind fun _ => Owes.pure (List.Perm.refl _)

/-- Properties whose raw names are different and have no identifiers in a scope. -/
structure Unclaimed (scope : NameScope) (properties : List (String × Site)) : Prop where
  once : (properties.map Prod.fst).Nodup
  new : ∀ property ∈ properties, scope.get? property.1 = none

/-- The first property claims a new identifier, and the others stay unclaimed. -/
theorem Unclaimed.claimIn {scope : NameScope} {raw : String} {property : Site}
    {rest : List (String × Site)} (h : Unclaimed scope ((raw, property) :: rest))
    (target : Target) (role : Role) :
    target.claimIn scope raw role = target.freshIn scope raw role ∧
      Unclaimed (target.freshIn scope raw role).2 rest := by
  obtain ⟨hraw, hrest⟩ := List.forall_mem_cons.1 h.new
  obtain ⟨hother, honce⟩ := List.nodup_cons.1 h.once
  refine ⟨NameScope.claim_of_get?_eq_none hraw _ _, honce, ?_⟩
  intro other hmem
  have hne : raw ≠ other.1 := fun heq => hother (List.mem_map.2 ⟨other, hmem, heq.symm⟩)
  rw [Target.freshIn, NameScope.claimFresh_snd, NameScope.get?_record_of_ne _ hne]
  exact hrest other hmem

theorem not_lasting_field : ¬ Lasting .field := by
  simp [Lasting]

theorem fieldsOf_owes (hrecur : Accounts setting asked recur) (model location : String)
    (required : List String) (scope : NameScope) (properties : List (String × Site))
    (hnew : Unclaimed scope properties) :
    Owes setting asked owed (fieldsOf setting recur model location required scope properties)
      fun fields => owed ++ fields.flatMap (Field.namings model) := by
  induction properties generalizing owed scope with
  | nil => exact Owes.pure (by simp)
  | cons property rest ih =>
    obtain ⟨raw, property⟩ := property
    obtain ⟨hclaim, hrest⟩ := hnew.claimIn setting.target .field
    unfold fieldsOf
    rw [hclaim]
    refine (noted_owes not_lasting_field scope raw _).bind fun name => ?_
    refine (hrecur.owes _ property _ _).bind fun type => ?_
    refine (ih _ hrest).bind fun fields => Owes.pure ?_
    simp [Field.namings]

/-! ## Properties -/

theorem Gathered.nodup_addProperty {properties : List (String × Site)}
    (h : (properties.map Prod.fst).Nodup) (property : String × Site) :
    ((Gathered.addProperty properties property).map Prod.fst).Nodup := by
  unfold addProperty
  split
  · exact h
  · rename_i hnone
    rw [List.map_append, List.map_singleton]
    refine h.append (List.nodup_singleton _) ?_
    simpa using hnone

theorem Gathered.nodup_addOwn {gathered : Gathered}
    (h : (gathered.properties.map Prod.fst).Nodup) (schema : Site) :
    ((gathered.addOwn schema).properties.map Prod.fst).Nodup := by
  unfold addOwn
  dsimp only
  generalize schema.membersAt "properties" = members
  generalize gathered.properties = properties at h
  induction members generalizing properties with
  | nil => exact h
  | cons member members ih => exact ih _ (nodup_addProperty h member)

theorem Gathered.nodup_gather (document : Document) (depth : Nat) (site : Site)
    {gathered : Gathered} (h : (gathered.properties.map Prod.fst).Nodup) :
    ((gather document depth site gathered).properties.map Prod.fst).Nodup := by
  induction depth generalizing site gathered with
  | zero => exact h
  | succ depth ih =>
    unfold gather
    split
    · exact h
    · rename_i schema _
      split
      · exact h
      · refine nodup_addOwn ?_ schema
        generalize schema.itemsAt "allOf" = parts
        generalize hstart : { gathered with visited := schema.address :: gathered.visited } = start
        replace h : (start.properties.map Prod.fst).Nodup := hstart ▸ h
        clear hstart
        induction parts generalizing start with
        | nil => exact h
        | cons part parts ihparts => exact ihparts _ (ih part h)

theorem unclaimed_properties (document : Document) (schema : Site) :
    Unclaimed .empty (properties document schema).properties where
  once := Gathered.nodup_gather document _ schema List.nodup_nil
  new := fun _ _ => rfl

theorem recordFields_owes (hrecur : Accounts setting asked recur) (model : String) (schema : Site)
    (location : String) :
    Owes setting asked owed (recordFields setting recur model schema location)
      fun fields => owed ++ fields.flatMap (Field.namings model) :=
  fieldsOf_owes hrecur _ _ _ _ _ (unclaimed_properties setting.document schema)

/-! ## Unions -/

def namedVariant? (schemaNames : Entries String) (alternative : Site) : Option Variant :=
  alternative.reference?.bind fun reference =>
    (schemaModel? schemaNames reference).map fun target =>
      Variant.mk target (some (Pointer.lastToken reference))

def aliasVariant (setting : Setting) (hint location : String) (type : DataType) :
    SchemaM Variant := do
  let name ← freshType setting hint location
  insertModel ⟨name, hint, none, .alias type, none⟩
  return ⟨name, none⟩

theorem variantOf_eq (model location : String) (position : Nat) (alternative : Site) :
    variantOf setting recur model location position alternative = (do
      let state ← get
      match namedVariant? state.schemaNames alternative with
      | some variant => return variant
      | none =>
        let hint := model ++ " variant " ++ Text.decimal position
        match ← recur alternative hint location with
        | .named target => return ⟨target, none⟩
        | type => aliasVariant setting hint location type) := rfl

/-- An alias takes a new name, and what is inside its type is booked with it. -/
theorem Balanced.placeAlias {entry state : State} {type : DataType} {hint : String}
    (location : String) (h : Balanced setting asked entry (owed ++ type.namings hint) state)
    (hmade : ∀ name after, (aliasVariant setting hint location type).run state =
        some (⟨name, none⟩, after) → name ∉ state.models.names → Earlier state after →
      Made setting asked after ⟨name, hint, none, .alias type, none⟩) :
    ∃ variant after, (aliasVariant setting hint location type).run state = some (variant, after) ∧
      Balanced setting asked entry owed after := by
  obtain ⟨name, claimed, hfresh, hclaim⟩ := freshType_claims setting asked hint location h.1
  let model : Model := ⟨name, hint, none, .alias type, none⟩
  have hrun : (aliasVariant setting hint location type).run state =
      some (⟨name, none⟩, { claimed with models := claimed.models.insert model }) := by
    unfold aliasVariant
    rw [StateT.run_bind, hfresh]
    rfl
  have hnew : model.name ∉ claimed.models.names := hclaim.new
  have hlater := hclaim.books.earlier.trans (Earlier.append hnew)
  have hplace := Books.place hnew (hmade name _ hrun (hclaim.models ▸ hnew) hlater)
  refine ⟨_, _, hrun, h.step (hclaim.books.trans hplace) (hclaim.sound.insert hclaim.held) ?_⟩
  simp only [addedNamings, Model.namings, Model.naming, Model.inside, Shape.namings, model,
    List.nil_append, List.flatMap_singleton, List.append_nil]
  exact List.perm_middle.trans (List.Perm.cons _ (by simpa using List.perm_append_comm))

/-- The alias was made for the alternative. -/
theorem made_aliasVariant (hrecur : Accounts setting asked recur) {model location : String}
    {position : Nat} {alternative : Site}
    (halternative : IsAlternative setting asked position alternative)
    {state found after : State} {type : DataType} {name : String} (hsound : Sound state)
    (hvariant : namedVariant? state.schemaNames alternative = none)
    (hfind : (recur alternative (model ++ " variant " ++ Text.decimal position) location).run
      state = some (type, found))
    (hnamed : ∀ target, type ≠ .named target)
    (hrun : (aliasVariant setting (model ++ " variant " ++ Text.decimal position) location
      type).run found = some (⟨name, none⟩, after))
    (hnew : name ∉ found.models.names) (hlater : Earlier found after) :
    Made setting asked after
      ⟨name, model ++ " variant " ++ Text.decimal position, none, .alias type, none⟩ := by
  have hbefore := hrecur.earlier hsound hfind
  have hsteps : (variantOf setting recur model location position alternative).run state =
      some (⟨name, none⟩, after) := by
    rw [variantOf_eq, StateT.run_bind, StateT.run_get]
    simp only [Option.pure_def, Option.bind_eq_bind, Option.bind_some, hvariant,
      StateT.run_bind, hfind]
    exact hrun
  obtain ⟨answered, depth, rfl, hasked⟩ := hrecur.among
  cases depth with
  | zero => exact nomatch hfind
  | succ depth =>
    have hfinder := typeOfAmong_asks setting (depth + 1)
    refine ⟨⟨depth, alternative, _, location, state⟩, after, hasked _ (answered_of_run hfind),
      .refl after, .inr ⟨rfl, fun hmem => hnew (hbefore.models.subset hmem),
        ⟨model, position, rfl, halternative, ?_⟩,
        ⟨type, found, ?_, hnamed, hbefore, hlater, rfl⟩⟩⟩
    · exact typeOfAmong_true setting (depth + 1) ▸
        (variantOf_asks hfinder model location position alternative).run_eq hsteps
    · exact typeOfAmong_true setting (depth + 1) ▸ (hfinder alternative _ location).run_eq hfind

/-- All that an alternative claims is in the table: a type that is no model gets an alias. -/
theorem variantOf_owes (hrecur : Accounts setting asked recur) (model location : String)
    {position : Nat} {alternative : Site}
    (halternative : IsAlternative setting asked position alternative) :
    Owes setting asked owed (variantOf setting recur model location position alternative)
      fun _ => owed := by
  intro entry
  rw [variantOf_eq]
  refine Contract.get_bind fun state hstate => ?_
  cases hvariant : namedVariant? state.schemaNames alternative with
  | some variant => exact Contract.pure fun _ heq => heq ▸ hstate
  | none =>
    refine (Contract.traced (hrecur.owes owed alternative _ location entry) hstate).bind ?_
    intro type
    split
    · exact Contract.pure fun found h => h.2.congr (by simp [DataType.namings])
    · rename_i hnamed
      rintro found ⟨hfind, hfound⟩
      obtain ⟨variant, after, hrun, hbalanced⟩ := hfound.placeAlias location
        fun _ _ => made_aliasVariant hrecur halternative hstate.1 hvariant hfind hnamed
      rw [hrun]
      exact hbalanced

theorem variantsOf_owes (hrecur : Accounts setting asked recur) (model location : String)
    (position : Nat) (alternatives : List Site)
    (halternatives : ∀ index alternative, alternatives[index]? = some alternative →
      IsAlternative setting asked (position + index) alternative) :
    Owes setting asked owed (variantsOf setting recur model location position alternatives)
      fun _ => owed := by
  induction alternatives generalizing position with
  | nil => exact Owes.pure (List.Perm.refl _)
  | cons alternative rest ih =>
    refine (variantOf_owes hrecur model location (halternatives 0 alternative rfl)).bind
      fun variant => ?_
    refine (ih (position + 1) fun index other hother => ?_).bind
      fun variants => Owes.pure (List.Perm.refl _)
    rw [Nat.add_assoc, Nat.add_comm 1]
    exact halternatives (index + 1) other hother

/-! ## Models -/

theorem shapeOf_owes (hrecur : Accounts setting asked recur) (name : String) {schema : Site}
    (hschema : GetsModel setting asked schema) (location : String) :
    Owes setting asked owed (shapeOf setting recur name schema location)
      fun result => owed ++ result.1.namings name name := by
  rw [shapeOf_eq]
  cases shapeKind schema with
  | reference reference =>
    refine (refType_owes hrecur reference name location).bind fun type => Owes.pure ?_
    exact List.Perm.refl _
  | enum values => exact Owes.pure (by simp [Shape.namings])
  | record =>
    refine (recordFields_owes hrecur name schema location).bind fun fields => Owes.pure ?_
    exact List.Perm.refl _
  | union alternatives _ _ _ hsome =>
    refine (variantsOf_owes hrecur name location 1 alternatives fun index alternative hget =>
      ⟨schema, alternatives, hschema, hsome, index, Nat.add_comm 1 index, hget⟩).bind
        fun variants => ?_
    exact Owes.get_bind fun state => Owes.pure (by simp [Shape.namings])
  | empty => exact Owes.pure (by simp [Shape.namings])
  | type =>
    refine (hrecur.owes _ schema name location).bind fun type => Owes.pure ?_
    exact List.Perm.refl _

theorem modelOf_owes (hrecur : Accounts setting asked recur) (name raw : String) {schema : Site}
    (hschema : GetsModel setting asked schema) (location : String) :
    Owes setting asked owed (modelOf setting recur name raw schema location)
      fun model => owed ++ model.inside name := by
  refine (shapeOf_owes hrecur name hschema location).bind ?_
  rintro ⟨shape, discriminator⟩
  exact Owes.pure (List.Perm.refl _)

/-- What a model is called does not depend on its schema. -/
theorem modelOf_names (name raw : String) (schema : Site) (location : String) :
    Returns (modelOf setting recur name raw schema location)
      fun model => model.name = name ∧ model.rawName = raw :=
  (Returns.any _).bind fun _ _ => Returns.pure ⟨rfl, rfl⟩

/-- An object gives no alias, and only the type of an alias depends on a hint. -/
theorem modelOf_inside {schema : Site} (h : IsObject schema) (name raw location : String) :
    Returns (modelOf setting recur name raw schema location)
      fun model => ∀ hint, model.inside hint = model.inside name := by
  have hshape : Returns (shapeOf setting recur name schema location)
      fun result => ∀ hint, result.1.namings name hint = result.1.namings name name := by
    rw [shapeOf_eq]
    cases shapeKind schema with
    | reference reference hreference => simp [h.noReference] at hreference
    | enum values _ hvalues => simp [h.noEnum] at hvalues
    | record => exact (Returns.any _).bind fun fields _ => Returns.pure fun _ => rfl
    | union alternatives =>
      refine (Returns.any _).bind fun variants _ => ?_
      exact Returns.get_bind fun state => Returns.pure fun _ => rfl
    | empty => exact Returns.pure fun _ => rfl
    | type _ _ hobject halternatives =>
      exact absurd (h.parts.resolve_right (by simp [halternatives])) hobject
  exact hshape.bind fun result hresult => Returns.pure hresult

/-- What hoisting does behind the claim of a name. -/
theorem hoist_run {schema : Site} {hint location name : String} {state claimed : State}
    (hfresh : (freshType setting hint location).run state = some (name, claimed)) :
    (hoist setting recur schema hint location).run state =
      ((modelOf setting recur name hint schema location).run
        { claimed with models := claimed.models.insert (placeholder name hint) }).bind
          fun (model, filled) =>
            some (.named name, { filled with models := filled.models.insert model }) := by
  unfold hoist
  rw [StateT.run_bind, hfresh]
  rfl

/-- A claimed name and what was claimed for a model are the identifiers of the model and of the
models that were added meanwhile. -/
theorem perm_addedNamings_cons {model : Model} {claims : List Naming} {added : List Model}
    (h : claims.Perm (addedNamings added ++ model.inside model.rawName)) :
    (model.naming :: claims).Perm (addedNamings (model :: added)) := by
  rw [addedNamings, List.flatMap_cons, Model.namings, List.cons_append]
  exact (h.trans List.perm_append_comm).cons model.naming

/-- Hoisting books the new model with all that is inside it, where a question asks for it. -/
theorem hoist_owes {answered : Question → Bool} {depth : Nat}
    (hrecur : Accounts setting asked (typeOfAmong setting answered depth)) {question : Question}
    (hasked : asked question) (hdepth : question.depth = depth)
    (hobject : IsHoisted question.site) :
    OwesFrom setting asked question.before owed
      (hoist setting (typeOfAmong setting answered depth) question.site question.hint
        question.location) fun type => owed ++ type.namings question.hint := by
  obtain ⟨depth, schema, hint, location, before⟩ := question
  subst hdepth
  have hschema : GetsModel setting asked schema := .inr ⟨_, hasked, rfl⟩
  rintro entry hstate state rfl
  obtain ⟨name, claimed, hfresh, hclaim⟩ := freshType_claims setting asked hint location hstate.1
  let placed := { claimed with models := claimed.models.insert (placeholder name hint) }
  have hplaced : Sound placed := hclaim.sound.insert hclaim.held
  have hrun := @hoist_run setting (typeOfAmong setting answered depth) schema _ _ _ _ _ hfresh
  cases hmodel : (modelOf setting (typeOfAmong setting answered depth) name hint schema
      location).run placed with
  | none =>
    rw [hrun, hmodel]
    trivial
  | some result =>
    obtain ⟨model, filled⟩ := result
    rw [hmodel, Option.bind_some] at hrun
    -- The stretch of the schema starts behind the placeholder, with nothing owed.
    obtain ⟨hfilled, claims, added, hclaims, hperm⟩ :=
      (modelOf_owes hrecur name hint hschema location placed).result (.start hplaced) hmodel
    obtain ⟨hname, hraw⟩ := (modelOf_names name hint schema location).of_run hmodel
    have hinside := (modelOf_inside hobject.toIsObject name hint location).of_run hmodel hint
    subst hname hraw
    have hplace : model.name ∈ filled.models.names :=
      hclaims.earlier.models.subset (ModelTable.mem_names_insert.2 (.inl rfl))
    have hmade : Made setting asked { filled with models := filled.models.insert model } model := by
      have hfinder := typeOfAmong_asks setting depth
      refine ⟨_, _, hasked, .refl _, .inl ⟨hobject, rfl, hclaim.models ▸ hclaim.new, ?_,
        claimed, placed, filled, hfresh, rfl, ?_, rfl, hclaims.earlier, Earlier.insert hplace⟩⟩
      · exact typeOfAmong_true setting depth ▸ (hoist_asks hfinder schema _ location).run_eq hrun
      · exact typeOfAmong_true setting depth ▸
          (modelOf_asks hfinder _ _ schema location).run_eq hmodel
    have hold : (placeholder model.name model.rawName).name = model.name := rfl
    have hfill := Books.fill hclaim.new hold hclaims hmade
    rw [hrun]
    refine hstate.step (hclaim.books.trans hfill) (hfilled.insert (hfilled.models hplace)) ?_
    replace hperm : claims.Perm (addedNamings added ++ model.inside model.name) := hperm
    have hcons := perm_addedNamings_cons (hinside ▸ hperm)
    change (owed ++ model.naming :: claims).Perm (addedNamings (model :: added) ++ (owed ++ []))
    rw [List.append_nil]
    exact List.perm_append_comm.trans (hcons.append_right owed)

/-! ## Types -/

theorem plainType_owes (hrecur : Accounts setting asked recur) (schema : Site)
    (hint location : String) :
    Owes setting asked owed (plainType recur schema hint location)
      fun type => owed ++ type.namings hint := by
  rw [plainType_eq]
  cases plainKind schema with
  | array items =>
    refine (hrecur.owes owed items _ location).bind fun type => Owes.pure ?_
    exact List.Perm.refl _
  | anyArray => exact remarked_owes location (by simp [Remark.kind]) rfl
  | map value =>
    refine (hrecur.owes owed value _ location).bind fun type => Owes.pure ?_
    exact List.Perm.refl _
  | anyMap => exact plain_owes rfl
  | any => exact plain_owes rfl
  | primitive type kind => exact plain_owes rfl
  | unknown type => exact remarked_owes location (by simp [Remark.kind]) rfl

theorem coreType_owes {answered : Question → Bool} {depth : Nat}
    (hrecur : Accounts setting asked (typeOfAmong setting answered depth)) {question : Question}
    (hasked : asked question) (hdepth : question.depth = depth) :
    OwesFrom setting asked question.before owed
      (coreType setting (typeOfAmong setting answered depth) question.site question.hint
        question.location) fun type => owed ++ type.namings question.hint := by
  rw [coreType_eq]
  cases typeKind question.site with
  | reference reference => exact (refType_owes hrecur reference _ _).start _
  | enum values =>
    refine ((freshType_owes question.hint question.location).bind fun name => Owes.pure ?_).start _
    exact List.Perm.refl _
  | object hobject => exact hoist_owes hrecur hasked hdepth hobject
  | part part => exact (hrecur.owes owed part _ _).start _
  | plain => exact (plainType_owes hrecur question.site _ _).start _

theorem typeStep_owes {answered : Question → Bool} {depth : Nat}
    (hrecur : Accounts setting asked (typeOfAmong setting answered depth)) {question : Question}
    (hasked : asked question) (hdepth : question.depth = depth) :
    OwesFrom setting asked question.before owed
      (typeStep setting (typeOfAmong setting answered depth) question.site question.hint
        question.location) fun type => owed ++ type.namings question.hint := by
  refine (coreType_owes hrecur hasked hdepth).bind fun type => Owes.pure ?_
  split <;> simp

end Steps

/-- Whatever the depth, types are found with the books kept. -/
theorem accounts_typeOfAmong (setting : Setting) {asked : Question → Prop}
    {answered : Question → Bool} (h : ∀ question, answered question = true → asked question)
    (depth : Nat) : Accounts setting asked (typeOfAmong setting answered depth) := by
  induction depth with
  | zero => exact ⟨⟨answered, 0, rfl, h⟩, fun _ _ _ _ _ _ _ => trivial⟩
  | succ depth ih =>
    refine ⟨⟨answered, depth + 1, rfl, h⟩, fun owed site hint location entry state hstate => ?_⟩
    rw [typeOfAmong_run]
    by_cases hanswered : answered ⟨depth, site, hint, location, state⟩ = true
    · rw [if_pos hanswered]
      exact typeStep_owes ih (h _ hanswered) rfl entry hstate state rfl
    · rw [if_neg hanswered]
      trivial

/-- The same where all questions may be asked. -/
theorem accounts_typeOf (setting : Setting) (depth : Nat) :
    Accounts setting (fun _ => True) (typeOf setting depth) :=
  typeOfAmong_true setting depth ▸ accounts_typeOfAmong setting (fun _ _ => trivial) depth

/-! ## Names within a model -/

section Fields

variable {setting : Setting} {recur : TypeFinder}

theorem noted_name (identifier : Identifier) (location : String) :
    Returns (noted identifier location) fun name => name = identifier.name := by
  intro state _
  rw [noted_run]

/-- There is a field for each property, with an identifier of its own. -/
theorem fieldsOf_areNew (model location : String) (required : List String) (scope : NameScope)
    (properties : List (String × Site)) (hnew : Unclaimed scope properties) :
    Returns (fieldsOf setting recur model location required scope properties)
      fun fields => scope.AreNew (fields.map Field.name) ∧
        fields.map Field.rawName = properties.map Prod.fst := by
  induction properties generalizing scope with
  | nil => exact Returns.pure ⟨scope.areNew_nil, rfl⟩
  | cons property rest ih =>
    obtain ⟨raw, property⟩ := property
    obtain ⟨hclaim, hrest⟩ := hnew.claimIn setting.target .field
    unfold fieldsOf
    rw [hclaim]
    refine (noted_name _ _).bind fun name hname => ?_
    refine (Returns.any _).bind fun type _ => ?_
    refine (ih _ hrest).bind fun fields hfields => Returns.pure ?_
    subst hname
    exact ⟨hfields.1.cons, congrArg (raw :: ·) hfields.2⟩

/-- No two fields share an identifier or a property. -/
structure FieldsApart (fields : List Field) : Prop where
  names : (fields.map Field.name).Nodup
  rawNames : (fields.map Field.rawName).Nodup

theorem fieldsApart_nil : FieldsApart [] :=
  ⟨List.nodup_nil, List.nodup_nil⟩

/-- The fields of a model have different names. -/
theorem modelOf_fieldsApart (name raw : String) (schema : Site) (location : String) :
    Returns (modelOf setting recur name raw schema location)
      fun model => FieldsApart model.fields := by
  have hshape : Returns (shapeOf setting recur name schema location)
      fun result => ∀ fields, result.1 = .record fields → FieldsApart fields := by
    rw [shapeOf_eq]
    cases shapeKind schema with
    | reference reference => exact (Returns.any _).bind fun type _ => Returns.pure (by simp)
    | enum values => exact Returns.pure (by simp)
    | record =>
      have hunclaimed := unclaimed_properties setting.document schema
      refine (fieldsOf_areNew name location _ .empty _ hunclaimed).bind fun fields hnew => ?_
      refine Returns.pure ?_
      rintro _ ⟨⟩
      exact ⟨hnew.1.once, hnew.2 ▸ hunclaimed.once⟩
    | union alternatives =>
      refine (Returns.any _).bind fun variants _ => ?_
      exact Returns.get_bind fun state => Returns.pure (by simp)
    | empty =>
      refine Returns.pure ?_
      rintro _ ⟨⟩
      exact fieldsApart_nil
    | type => exact (Returns.any _).bind fun type _ => Returns.pure (by simp)
  refine hshape.bind fun result hresult => Returns.pure ?_
  unfold Model.fields
  split
  · rename_i fields hrecord
    exact hresult fields hrecord
  · exact fieldsApart_nil

end Fields

end ServantGen.Lowering
