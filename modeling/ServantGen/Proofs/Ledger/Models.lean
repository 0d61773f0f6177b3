import ServantGen.Proofs.Json.Keys
import ServantGen.Proofs.Ledger.Schemas

/-!
# Named schemas keep the books

Named schemas are declared first: each gets a name and a placeholder, in order. Then each is
lowered, and its model takes the place while other models are added behind. At any time the
table is the models that are done, the placeholders of the schemas to come, and the models made
on the way.
-/

namespace ServantGen.Lowering

variable {setting : Setting} {asked : Question → Prop} {find : TypeFinder}

/-! ## Declaring -/

def schemaNaming (entry : String × String) : Naming :=
  ⟨.type, entry.1, entry.2⟩

theorem namesIn_schemaNaming (names : Entries String) :
    Naming.namesIn .type (names.map schemaNaming) = names.map Prod.snd := by
  induction names with
  | nil => rfl
  | cons entry names ih => rw [List.map_cons, Naming.namesIn_cons, ih]; rfl

def schemaPlace (entry : String × String) : Model :=
  placeholder entry.2 entry.1

/-- The named schemas that have names, and nothing else has happened. -/
structure Placed (setting : Setting) (names : Entries String) (state : State) : Prop where
  sound : Sound state
  claims : Claims setting .initial state (names.map schemaNaming)
  schemaNames : state.schemaNames = names
  table : state.models.models = names.map schemaPlace
  first : ∀ raw, raw ∉ names.keys → state.names.types.get? raw = none

theorem placed_initial (setting : Setting) : Placed setting [] .initial where
  sound := by
    refine ⟨?_, by simp [State.initial, ModelTable.names, ModelTable.empty]⟩
    rintro (_ | _) <;> exact List.nodup_nil
  claims := ⟨fun _ _ => rfl, [], rfl, .nil⟩
  schemaNames := rfl
  table := rfl
  first := fun _ _ => rfl

/-- A schema with a new raw name gets a new name and a place at the end. -/
theorem declareModel_places {names : Entries String} {raw : String} (hraw : raw ∉ names.keys) :
    Contract True (Placed setting names) (declareModel setting raw)
      fun _ after => ∃ name, Placed setting (names ++ [(raw, name)]) after := by
  intro state hstate
  have hsame : (claimType setting raw (schemaLocation raw)).run state =
      (freshType setting raw (schemaLocation raw)).run state := by
    rw [claimType, freshType, claimed_run, claimed_run]
    simp only [NameBook.claimType, NameBook.freshType, Target.claimIn, Target.freshIn,
      NameScope.claim_of_get?_eq_none (hstate.first raw hraw)]
  obtain ⟨name, claimed, hfresh, hclaim⟩ :=
    freshType_claims setting (fun _ => True) raw (schemaLocation raw) hstate.sound
  have hrun : (declareModel setting raw).run state = some (⟨⟩, { claimed with
      models := claimed.models.insert (placeholder name raw)
      schemaNames := claimed.schemaNames.put raw name }) := by
    unfold declareModel
    rw [StateT.run_bind, hsame, hfresh]
    rfl
  rw [hrun]
  have hschemas : claimed.schemaNames = names := hclaim.books.schemaNames.trans hstate.schemaNames
  have hplaced : Sound { claimed with models := claimed.models.insert (placeholder name raw) } :=
    hclaim.sound.insert hclaim.held
  refine ⟨name, hplaced.of_eq rfl rfl, ?_, ?_, ?_, ?_⟩
  · have hclaims := hstate.claims.trans hclaim.books.toClaims
    rw [List.map_append]
    exact ⟨hclaims.held, hclaims.notices⟩
  · change claimed.schemaNames.put raw name = _
    rw [hschemas, Entries.put_of_notMem hraw]
  · change ModelTable.insertInto (placeholder name raw) claimed.models.models = _
    rw [ModelTable.insertInto_of_notMem hclaim.new, hclaim.models, hstate.table, List.map_append]
    rfl
  · intro other hother
    rw [Entries.keys, List.map_append, List.mem_append, not_or] at hother
    have hne : raw ≠ other := fun heq => hother.2 (by simp [heq])
    change claimed.names.types.get? other = none
    rw [hclaim.types, NameScope.get?_record_of_ne _ hne]
    exact hstate.first other hother.1

theorem declareModels_places (schemas : List (String × Site)) {names : Entries String}
    (hraws : (names.keys ++ schemas.map Prod.fst).Nodup) :
    Contract True (Placed setting names)
      (schemas.forM fun (raw, _) => declareModel setting raw)
      fun _ after => ∃ all, all.keys = names.keys ++ schemas.map Prod.fst ∧
        Placed setting all after := by
  induction schemas generalizing names with
  | nil => exact Contract.pure fun state hstate => ⟨names, by simp, hstate⟩
  | cons schema schemas ih =>
    obtain ⟨raw, schema⟩ := schema
    have hraw : raw ∉ names.keys := by
      intro hmem
      exact (List.nodup_append.1 hraws).2.2 raw hmem raw (by simp) rfl
    refine (declareModel_places hraw).bind ?_
    rintro ⟨⟩ state ⟨name, hstate⟩
    have hkeys : Entries.keys (names ++ [(raw, name)]) ++ schemas.map Prod.fst =
        names.keys ++ ((raw, schema) :: schemas).map Prod.fst := by
      simp [Entries.keys]
    have hrest := ih (hkeys ▸ hraws)
    exact hkeys ▸ hrest state hstate

/-! ## Lowering -/

/-- A model is what its own named schema gives under its name, found on the way to a state in
which the name of the schema leads to it. -/
structure LoweredAt (setting : Setting) (find : TypeFinder) (state : State)
    (schema : String × Site) (model : Model) : Prop where
  rawName : model.rawName = schema.1
  schemaName : state.schemaNames.get? schema.1 = some model.name
  made : ∃ before after,
    (modelOf setting find model.name schema.1 schema.2 (schemaLocation schema.1)).run before =
      some (model, after) ∧ Earlier before after ∧ Earlier after state

theorem LoweredAt.later {state after : State} {schema : String × Site} {model : Model}
    (h : LoweredAt setting find state schema model) (hlater : Earlier state after) :
    LoweredAt setting find after schema model where
  rawName := h.rawName
  schemaName := hlater.schemaNames ▸ h.schemaName
  made := by
    obtain ⟨before, made, hrun, hbefore, hmade⟩ := h.made
    exact ⟨before, made, hrun, hbefore, hmade.trans hlater⟩

/-- A model that was found with some questions answered is what its schema gives. -/
theorem LoweredAt.of_among {answered : Question → Bool} {depth : Nat} {state : State}
    {schema : String × Site} {model : Model}
    (h : LoweredAt setting (typeOfAmong setting answered depth) state schema model) :
    LoweredAt setting (typeOf setting depth) state schema model where
  rawName := h.rawName
  schemaName := h.schemaName
  made := by
    obtain ⟨before, after, hrun, hlater⟩ := h.made
    have hasks := typeOfAmong_asks setting depth
    exact ⟨before, after, typeOfAmong_true setting depth ▸
      (modelOf_asks hasks _ _ schema.2 _).run_eq hrun, hlater⟩

/-- The models of named schemas as they are made one after the other: each is found in the state
that the one before it leaves, and takes its place in the table. -/
inductive Course (setting : Setting) (find : TypeFinder) (start : State) :
    List (String × Site) → List Model → State → Prop
  | start : Course setting find start [] [] start
  | step {done : List (String × Site)} {models : List Model} {state after : State} {raw : String}
      {schema : Site} {model : Model} (course : Course setting find start done models state)
      (hname : state.schemaNames.get? raw = some model.name)
      (hrun : (modelOf setting find model.name raw schema (schemaLocation raw)).run state =
        some (model, after)) :
      Course setting find start (done ++ [(raw, schema)]) (models ++ [model])
        { after with models := after.models.insert model }

theorem Course.of_among {answered : Question → Bool} {depth : Nat} {start state : State}
    {done : List (String × Site)} {models : List Model}
    (h : Course setting (typeOfAmong setting answered depth) start done models state) :
    Course setting (typeOf setting depth) start done models state := by
  have hasks := typeOfAmong_asks setting depth
  induction h with
  | start => exact .start
  | step _ hname hrun ih =>
    exact .step ih hname (typeOfAmong_true setting depth ▸
      (modelOf_asks hasks _ _ _ _).run_eq hrun)

/-- Some named schemas are lowered and others wait: the table is the models of the former, the
places of the latter, and the models made on the way. -/
structure Filled (setting : Setting) (asked : Question → Prop) (find : TypeFinder)
    (start : State) (done : List (String × Site)) (waiting : Entries String) (models : List Model)
    (claimed : List Naming) (added : List Model) (state : State) : Prop where
  course : Course setting find start done models state
  sound : Sound state
  claims : Claims setting .initial state claimed
  keys : state.schemaNames.keys.Nodup
  names : (state.schemaNames.map Prod.snd).Nodup
  schemaNames : state.schemaNames = (models.map fun m => (m.rawName, m.name)) ++ waiting
  table : state.models.models = models ++ (waiting.map schemaPlace ++ added)
  lowered : List.Forall₂ (LoweredAt setting find state) done models
  made : ∀ model ∈ added, Made setting asked state model
  balance : claimed.Perm (models.flatMap (fun model => model.namings model.name) ++
    (waiting.map schemaNaming ++ addedNamings added))

theorem Placed.filled {names : Entries String} {state : State}
    (h : Placed setting names state) (hkeys : names.keys.Nodup) :
    Filled setting asked find state [] names [] (names.map schemaNaming) [] state where
  course := .start
  sound := h.sound
  claims := h.claims
  keys := h.schemaNames ▸ hkeys
  names := by
    have honce := h.sound.once .type
    rw [h.claims.held .type (.inl rfl), namesIn_schemaNaming] at honce
    rw [h.schemaNames]
    exact List.nodup_reverse.1 (List.nodup_append.1 honce).1
  schemaNames := h.schemaNames
  table := by simpa using h.table
  lowered := .nil
  made := by simp
  balance := by simp [addedNamings]

namespace Filled

variable {done : List (String × Site)} {waiting : Entries String} {raw name : String}
variable {models added : List Model} {claimed : List Naming} {start state : State}

/-- The first schema that waits finds its name. -/
theorem get?_schemaNames
    (h : Filled setting asked find start done ((raw, name) :: waiting) models claimed added state) :
    state.schemaNames.get? raw = some name := by
  have hkeys := h.keys
  rw [h.schemaNames] at hkeys ⊢
  rw [Entries.keys, List.map_append, List.map_cons] at hkeys
  have hraw : Entries.get? raw (models.map fun m => (m.rawName, m.name)) = none := by
    rw [← Option.not_isSome_iff_eq_none, Entries.isSome_get?_iff]
    exact fun hmem => (List.nodup_append.1 hkeys).2.2 raw hmem raw List.mem_cons_self rfl
  rw [Entries.get?_append, hraw, Option.none_or, Entries.get?, if_pos rfl]

/-- No model that is done has its name. -/
theorem name_notMem
    (h : Filled setting asked find start done ((raw, name) :: waiting) models claimed added state) :
    name ∉ models.map Model.name := by
  have hnames := h.names
  rw [h.schemaNames, List.map_append, List.map_map, List.map_cons] at hnames
  exact fun hmem => (List.nodup_append.1 hnames).2.2 name hmem name List.mem_cons_self rfl

/-- What was claimed is still accounted for when the first schema that waits gives way to its
model. -/
theorem balance_fill {model : Model} {claims : List Naming} {new : List Model}
    (h : Filled setting asked find start done ((raw, model.name) :: waiting) models claimed added
      state)
    (hraw : model.rawName = raw)
    (hperm : claims.Perm (addedNamings new ++ model.inside model.name)) :
    (claimed ++ claims).Perm ((models ++ [model]).flatMap (fun model => model.namings model.name) ++
      (waiting.map schemaNaming ++ addedNamings (added ++ new))) := by
  have hnaming : schemaNaming (raw, model.name) = model.naming :=
    congrArg (Naming.mk .type · model.name) hraw.symm
  refine List.perm_iff_count.2 fun naming => ?_
  have hclaimed := List.perm_iff_count.1 h.balance naming
  have hnew := List.perm_iff_count.1 hperm naming
  simp only [addedNamings, hnaming, Model.namings, List.map_cons, List.flatMap_append,
    List.flatMap_cons, List.flatMap_nil, List.append_nil, List.cons_append,
    List.count_append, List.count_cons] at hclaimed hnew ⊢
  omega

/-- The model of the first schema that waits takes its place. -/
theorem fill {schema : Site} {model : Model} {middle : State} {claims : List Naming}
    {new : List Model}
    (h : Filled setting asked find start done ((raw, model.name) :: waiting) models claimed added
      state)
    (hraw : model.rawName = raw)
    (hrun : (modelOf setting find model.name raw schema (schemaLocation raw)).run state =
      some (model, middle))
    (hsound : Sound middle) (hbooks : Books setting asked state middle claims new)
    (hperm : claims.Perm (addedNamings new ++ model.inside model.name)) :
    Filled setting asked find start (done ++ [(raw, schema)]) waiting (models ++ [model])
      (claimed ++ claims) (added ++ new)
      { middle with models := middle.models.insert model } := by
  have htable : middle.models.models = models ++ schemaPlace (raw, model.name) ::
      (waiting.map schemaPlace ++ (added ++ new)) := by
    rw [hbooks.table, h.table]
    simp
  have hplace : model.name ∈ middle.models.names := by
    rw [ModelTable.names, htable]
    simp [schemaPlace, placeholder]
  have hinsert : Earlier middle { middle with models := middle.models.insert model } :=
    Earlier.insert hplace
  have hlater := hbooks.earlier.trans hinsert
  have hclaims := h.claims.trans hbooks.toClaims
  have hget := hlater.schemaNames ▸ h.get?_schemaNames
  have hold : (schemaPlace (raw, model.name)).name = model.name := rfl
  exact {
    course := h.course.step h.get?_schemaNames hrun
    sound := hsound.insert (hsound.models hplace)
    claims := ⟨hclaims.held, hclaims.notices⟩
    keys := hlater.schemaNames ▸ h.keys
    names := hlater.schemaNames ▸ h.names
    schemaNames := by
      rw [hlater.schemaNames, h.schemaNames]
      simp [hraw]
    table := by
      change ModelTable.insertInto model middle.models.models = _
      rw [htable, ModelTable.insertInto_append_cons h.name_notMem hold]
      simp
    lowered := by
      refine List.rel_append (h.lowered.imp fun _ _ hold => hold.later hlater) ?_
      exact .cons ⟨hraw, hget, state, middle, hrun, hbooks.earlier, hinsert⟩ .nil
    made := by
      refine List.forall_mem_append.2 ⟨?_, ?_⟩
      · exact fun other hother => (h.made other hother).later hlater
      · exact fun other hother => (hbooks.made other hother).later hinsert
    balance := h.balance_fill hraw hperm }

end Filled

/-- Some named schemas are lowered, with some books, and others wait. -/
def Filling (setting : Setting) (asked : Question → Prop) (find : TypeFinder) (start : State)
    (done : List (String × Site)) (waiting : Entries String) (state : State) : Prop :=
  ∃ models claimed added, Filled setting asked find start done waiting models claimed added state

/-- Lowering one schema fills its place. -/
theorem lowerModel_fills (hfind : Accounts setting asked find) (start : State)
    (done : List (String × Site)) (waiting : Entries String) {raw : String} (name : String)
    {schema : Site} (hschema : (raw, schema) ∈ setting.document.schemas) :
    Contract True (Filling setting asked find start done ((raw, name) :: waiting))
      (lowerModel setting find raw schema)
      fun _ => Filling setting asked find start (done ++ [(raw, schema)]) waiting := by
  rintro state ⟨models, claimed, added, h⟩
  have hrun : (lowerModel setting find raw schema).run state =
      ((modelOf setting find name raw schema (schemaLocation raw)).run state).bind
        fun result =>
          some (⟨⟩, { result.2 with models := result.2.models.insert result.1 }) := by
    unfold lowerModel
    rw [StateT.run_bind, StateT.run_get]
    simp only [Option.pure_def, Option.bind_eq_bind, Option.bind_some, h.get?_schemaNames]
    rfl
  cases hmodel : (modelOf setting find name raw schema (schemaLocation raw)).run state with
  | none =>
    rw [hrun, hmodel]
    trivial
  | some result =>
    obtain ⟨model, middle⟩ := result
    obtain ⟨hsound, claims, new, hbooks, hperm⟩ :=
      (modelOf_owes hfind name raw (.inl ⟨raw, hschema⟩) _ state).result (.start h.sound) hmodel
    obtain ⟨rfl, hraw⟩ := (modelOf_names name raw schema _).of_run hmodel
    rw [hrun, hmodel]
    exact ⟨_, _, _, h.fill hraw hmodel hsound hbooks hperm⟩

theorem lowerModels_fills (hfind : Accounts setting asked find) (start : State)
    (done : List (String × Site)) {schemas : List (String × Site)}
    (hschemas : ∀ schema ∈ schemas, schema ∈ setting.document.schemas) {waiting : Entries String}
    (hwaiting : waiting.keys = schemas.map Prod.fst) :
    Contract True (Filling setting asked find start done waiting)
      (schemas.forM fun (raw, schema) => lowerModel setting find raw schema)
      fun _ => Filling setting asked find start (done ++ schemas) [] := by
  induction schemas generalizing done waiting with
  | nil =>
    obtain rfl : waiting = [] := List.map_eq_nil_iff.1 hwaiting
    rw [List.append_nil]
    exact Contract.pure fun _ h => h
  | cons schema schemas ih =>
    obtain ⟨raw, schema⟩ := schema
    obtain ⟨⟨key, name⟩, rest, rfl, hkey, hrest⟩ := List.map_eq_cons_iff.1 hwaiting
    obtain rfl : key = raw := hkey
    obtain ⟨hschema, hothers⟩ := List.forall_mem_cons.1 hschemas
    refine (lowerModel_fills hfind start done rest name hschema).bind fun _ => ?_
    have hnext := ih (done ++ [(key, schema)]) hothers hrest
    rwa [List.append_assoc] at hnext

end ServantGen.Lowering
