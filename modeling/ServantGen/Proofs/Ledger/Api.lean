import ServantGen.Lowering.Run
import ServantGen.Proofs.Building
import ServantGen.Proofs.Ledger.Models
import ServantGen.Proofs.Ledger.Operations

/-!
# The books of a whole run

At the end of a run nothing is owed: the identifiers that were claimed are those of the
interface. So they differ where they share a scope, each one that is renamed was reported once,
and the table is the models of the named schemas, in the order of the document, followed by the
models made on the way.
-/

namespace ServantGen

namespace Api

/-- Identifiers that share a scope are different. -/
structure NamesApart (api : Api) : Prop where
  operations : (api.operations.map Operation.id).Nodup
  /-- Models, those made on the way included, and enumerations inside types are one scope. -/
  types : (api.models.names ++ api.enumNames).Nodup
  /-- So the list of the first enumeration for each name leaves none out. -/
  enums : api.inlineEnums.map InlineEnum.name = api.enumNames
  fields : ∀ model ∈ api.models.models, (model.fields.map Field.name).Nodup
  parameters : ∀ operation ∈ api.operations, (operation.parameters.map Parameter.name).Nodup

theorem firstBy_of_nodup {α : Type} {key : α → String} {seen : List String} {items : List α}
    (honce : (items.map key).Nodup) (hseen : ∀ item ∈ items, key item ∉ seen) :
    firstBy key seen items = items := by
  induction items generalizing seen with
  | nil => rfl
  | cons item items ih =>
    obtain ⟨hitem, hitems⟩ := List.forall_mem_cons.1 hseen
    obtain ⟨hother, honce⟩ := List.nodup_cons.1 honce
    rw [firstBy, if_neg hitem, ih honce]
    intro other hmem hkey
    obtain heq | hkey := List.mem_cons.1 hkey
    · exact hother (heq ▸ List.mem_map_of_mem hmem)
    · exact hitems other hmem hkey

/-- Enumerations with different names are all listed. -/
theorem map_name_inlineEnums {api : Api} (h : api.enumNames.Nodup) :
    api.inlineEnums.map InlineEnum.name = api.enumNames := by
  let all := api.types.flatMap fun type =>
    type.enums.map fun entry => (⟨entry.1, entry.2⟩ : InlineEnum)
  have hnames : all.map InlineEnum.name = api.enumNames := by
    simp [all, enumNames, List.map_flatMap, Function.comp_def]
  have hlisted : api.inlineEnums = all := firstBy_of_nodup (hnames ▸ h) (by simp)
  rw [hlisted, hnames]

end Api

namespace Lowering

variable {setting : Setting}

/-- The interface that a run ends with, and its books. -/
structure Account (setting : Setting) (api : Api) (declared added : List Model)
    (claimed : List Naming) (final : State) : Prop where
  sound : Sound final
  claims : Claims setting .initial final claimed
  table : api.models = final.models
  models : api.models.models = declared ++ added
  schemaNames : final.schemaNames = declared.map fun m => (m.rawName, m.name)
  lowered : List.Forall₂ (LoweredAt setting (typeOf setting setting.depth) final)
    setting.document.schemas declared
  course : ∃ placed filled, (declareModels setting).run .initial = some (⟨⟩, placed) ∧
    Course setting (typeOf setting setting.depth) placed setting.document.schemas declared filled
  /-- Each of the others was made by a question of the run. -/
  made : ∃ questions, QuestionsOf setting questions ∧
    ∀ model ∈ added, Made setting (· ∈ questions) final model
  operations : ∃ sites, setting.document.operations = .ok sites ∧
    List.Forall₂ StandsFor sites api.operations
  balance : claimed.Perm (api.namings setting.document.schemas.length)

/-- The operations close the books. -/
theorem Filled.account {answered : Question → Bool} {questions : List Question}
    {models added new : List Model} {claimed claims : List Naming}
    {placed start final : State} {operations : List Operation} {info : ApiInfo}
    {sites : List OperationSite}
    (h : Filled setting (· ∈ questions) (typeOfAmong setting answered setting.depth) placed
      setting.document.schemas [] models claimed added start)
    (hplaced : (declareModels setting).run .initial = some (⟨⟩, placed))
    (hquestions : QuestionsOf setting questions)
    (hsound : Sound final) (hbooks : Books setting (· ∈ questions) start final claims new)
    (hperm : claims.Perm (addedNamings new ++ operations.flatMap Operation.namings))
    (hsites : setting.document.operations = .ok sites)
    (hoperations : List.Forall₂ StandsFor sites operations) :
    Account setting ⟨info, final.models, operations⟩ models (added ++ new) (claimed ++ claims)
      final := by
  have htable : final.models.models = models ++ (added ++ new) := by
    rw [hbooks.table, h.table]
    simp
  have hlength : setting.document.schemas.length = models.length := h.lowered.length_eq
  exact {
    sound := hsound
    claims := h.claims.trans hbooks.toClaims
    table := rfl
    models := htable
    schemaNames := by rw [hbooks.schemaNames, h.schemaNames, List.append_nil]
    lowered := h.lowered.imp fun _ _ hold => (hold.later hbooks.earlier).of_among
    course := ⟨placed, start, hplaced, h.course.of_among⟩
    made := by
      refine ⟨questions, hquestions, List.forall_mem_append.2 ⟨?_, hbooks.made⟩⟩
      exact fun model hmodel => (h.made model hmodel).later hbooks.earlier
    operations := ⟨sites, hsites, hoperations⟩
    balance := by
      rw [Api.namings, htable, hlength, List.take_left, List.drop_left]
      refine List.perm_iff_count.2 fun naming => ?_
      have hclaimed := List.perm_iff_count.1 h.balance naming
      have hclaims := List.perm_iff_count.1 hperm naming
      simp only [addedNamings, List.map_nil, List.nil_append, List.flatMap_append,
        List.count_append] at hclaimed hclaims ⊢
      omega }

/-- A run that ends with an interface when its questions alone are answered has books. -/
theorem lowerWith_account {answered : Question → Bool} {questions : List Question}
    (hquestions : QuestionsOf setting questions)
    (hanswered : ∀ question, answered question = true → question ∈ questions)
    (hkeys : (setting.document.schemas.map Prod.fst).Nodup) :
    Contract True (· = State.initial)
      (lowerWith setting (typeOfAmong setting answered setting.depth)).run fun outcome final =>
        ∀ api, outcome = .ok api →
          ∃ declared added claimed, Account setting api declared added claimed final := by
  have hfind := accounts_typeOfAmong setting hanswered setting.depth
  have hdeclare := @declareModels_places setting setting.document.schemas [] hkeys
  refine Contract.bindOutcome (Contract.lift (hdeclare.traced (placed_initial setting))) ?_
  rintro ⟨⟩ placed ⟨hplaced, names, hnames, hdeclared⟩
  replace hnames : names.keys = setting.document.schemas.map Prod.fst := hnames
  have hfilling : Filling setting (· ∈ questions) (typeOfAmong setting answered setting.depth)
      placed [] names placed := ⟨_, _, _, hdeclared.filled (hnames ▸ hkeys)⟩
  have hlower := lowerModels_fills hfind placed [] (fun _ hmem => hmem) hnames
  refine Contract.bindOutcome (Contract.lift hlower) ?_ placed hfilling
  rintro ⟨⟩ start ⟨models, claimed, added, hfilled⟩
  rw [OperationM.run_bind]
  cases hrun : (lowerOperations setting
      (typeOfAmong setting answered setting.depth)).run.run start with
  | none => trivial
  | some result =>
    obtain ⟨outcome, final⟩ := result
    cases outcome with
    | error error => simp
    | ok operations =>
      obtain ⟨hsound, claims, new, hbooks, hperm⟩ :=
        (lowerOperations_owes hfind start).result (.start hfilled.sound) hrun operations rfl
      obtain ⟨sites, hsites, hstand⟩ :=
        Returns.of_run lowerOperations_standFor hrun operations rfl
      rintro _ ⟨⟩
      exact ⟨_, _, _, hfilled.account hplaced hquestions hsound hbooks hperm hsites hstand⟩

/-- The books of a run from the initial state. -/
theorem account_of_run_eq_ok {api : Api} {notices : List Notice}
    (h : run setting = some ⟨.ok api, notices⟩)
    (hkeys : setting.document.tree.hasDistinctKeys = true) :
    ∃ final, (lowerApi setting).run.run .initial = some (.ok api, final) ∧
      final.notices = notices ∧ ∃ declared added claimed,
        Account setting api declared added claimed final := by
  obtain ⟨⟨outcome, final⟩, hrun, hresult⟩ := Option.map_eq_some_iff.1 h
  obtain rfl : outcome = .ok api := congrArg Result.outcome hresult
  refine ⟨final, hrun, congrArg Result.notices hresult, ?_⟩
  -- The run with its own questions answered, and no other, is the same run.
  classical
  obtain ⟨questions, hquestions⟩ := exists_questionsOf setting
  have haccount := lowerWith_account hquestions
    (fun question hanswered => of_decide_eq_true hanswered) (Document.nodup_schemas hkeys)
  refine haccount.result rfl ?_ api rfl
  rw [hquestions, if_pos (by simp), hrun]

/-! ## Identifiers -/

namespace Account

variable {api : Api} {declared added : List Model} {claimed : List Naming} {final : State}

/-- The names of a role that lasts are different. -/
theorem nodup_namesIn (h : Account setting api declared added claimed final) {role : Role}
    (hrole : Lasting role) :
    (Naming.namesIn role (api.namings setting.document.schemas.length)).Nodup := by
  have honce := h.sound.once role
  rw [h.claims.held role hrole] at honce
  have hclaimed := List.nodup_reverse.1 (List.nodup_append.1 honce).1
  exact (Naming.namesIn_perm h.balance).nodup_iff.1 hclaimed

theorem nodup_types (h : Account setting api declared added claimed final) :
    (api.models.names ++ api.enumNames).Nodup :=
  (Api.namesIn_type_perm _ api).nodup_iff.1 (h.nodup_namesIn (.inl rfl))

theorem nodup_operations (h : Account setting api declared added claimed final) :
    (api.operations.map Operation.id).Nodup :=
  Api.namesIn_function _ api ▸ h.nodup_namesIn (.inr rfl)

theorem fieldsApart (h : Account setting api declared added claimed final) {model : Model}
    (hmodel : model ∈ api.models.models) : FieldsApart model.fields := by
  rw [h.models] at hmodel
  obtain hmodel | hmodel := List.mem_append.1 hmodel
  · obtain ⟨schema, -, hlowered⟩ := Outcomes.exists_of_mem_of_forall₂ h.lowered hmodel
    obtain ⟨before, after, hrun, -⟩ := hlowered.made
    exact (modelOf_fieldsApart _ _ _ _).of_run hrun
  · obtain ⟨questions, -, hmade⟩ := h.made
    obtain ⟨question, after, -, -, hhoisted | haliased⟩ := hmade model hmodel
    · obtain ⟨claimed, placed, filled, -, -, hrun, -⟩ := hhoisted.made
      exact (modelOf_fieldsApart _ _ _ _).of_run hrun
    · obtain ⟨type, found, -, -, -, -, heq⟩ := haliased.made
      rw [heq]
      exact fieldsApart_nil

/-- Every identifier is the one its raw name asks for, or that one with a number behind it. -/
theorem identifier_or_numbered (h : Account setting api declared added claimed final)
    {naming : Naming} (hnaming : naming ∈ api.namings setting.document.schemas.length) :
    naming.name = setting.target.identifier naming.role naming.raw ∨ ∃ number, naming.name =
      NameScope.numbered (setting.target.identifier naming.role naming.raw) number := by
  cases hrenamed : Naming.isRenamed setting.target naming with
  | false => exact .inl (by simpa [Naming.isRenamed] using hrenamed)
  | true =>
    obtain ⟨new, -, hreports⟩ := h.claims.notices
    have hmem := List.mem_filter.2 ⟨h.balance.mem_iff.2 hnaming, hrenamed⟩
    obtain ⟨notice, -, hreport⟩ := Outcomes.exists_of_mem_of_forall₂ hreports.flip hmem
    exact .inr hreport.2

theorem namesApart (h : Account setting api declared added claimed final) :
    api.NamesApart where
  operations := h.nodup_operations
  types := h.nodup_types
  enums := Api.map_name_inlineEnums (List.nodup_append.1 h.nodup_types).2.1
  fields := fun _ hmodel => (h.fieldsApart hmodel).names
  parameters := by
    intro operation hoperation
    obtain ⟨sites, -, hstand⟩ := h.operations
    obtain ⟨site, -, hsite⟩ := Outcomes.exists_of_mem_of_forall₂ hstand hoperation
    exact hsite.parameters

end Account

structure TellsOf (target : Target) (naming : Naming) (diagnostic : Diagnostic) : Prop where
  severity : diagnostic.severity = .info
  kind : diagnostic.kind = .identifierCollision
  message : ∃ existing, diagnostic.message = Collision.message
    ⟨naming.raw, target.identifier naming.role naming.raw, existing, naming.name⟩

theorem Reports.tellsOf {target : Target} {naming : Naming} {notice : Notice}
    (h : Reports target naming notice) : TellsOf target naming notice.toDiagnostic := by
  obtain ⟨remark, location⟩ := notice
  obtain ⟨⟨existing, rfl⟩, -⟩ := h
  exact ⟨rfl, rfl, existing, rfl⟩

/-- When a document without repeated keys is lowered to an interface, identifiers that share a
scope are different, and there is one diagnostic for each identifier that is not the one its raw
name asks for, and for no other. -/
theorem namesApart_of_run_eq_ok {api : Api} {notices : List Notice}
    (h : run setting = some ⟨.ok api, notices⟩)
    (hkeys : setting.document.tree.hasDistinctKeys = true) :
    api.NamesApart ∧
      ∃ renamed : List Naming, renamed.Perm
          ((api.namings setting.document.schemas.length).filter
            (Naming.isRenamed setting.target)) ∧
        List.Forall₂ (TellsOf setting.target) renamed
          ((notices.map Notice.toDiagnostic).filter (·.kind == .identifierCollision)) := by
  obtain ⟨final, -, hnotices, declared, added, claimed, haccount⟩ := account_of_run_eq_ok h hkeys
  refine ⟨haccount.namesApart, _, haccount.balance.filter _, ?_⟩
  obtain ⟨new, hnew, hreports⟩ := haccount.claims.notices
  obtain rfl : notices = new := hnotices.symm.trans (hnew.trans (List.nil_append new))
  rw [List.filter_map]
  exact List.forall₂_map_right_iff.2 (hreports.imp fun _ _ => Reports.tellsOf)

/-- Two schemas, two fields, two parameters and two operations that ask for one name each, and
an enumeration that asks for the name of a schema. -/
theorem namesApart_of_run_eq_ok_collisions :
    let tree : Json := .object [
      ("info", .object []),
      ("paths", .object [
        ("/a", .object [("get", .object [("operationId", .string "list"),
          ("parameters", .array [
            .object [("name", .string "id"), ("in", .string "query"), ("type", .string "string")],
            .object [("name", .string "id"), ("in", .string "header"),
              ("schema", .object [("enum", .array [.string "x"])])]])])]),
        ("/b", .object [("get", .object [("operationId", .string "List")])])]),
      ("definitions", .object [
        ("list id", .object [("properties", .object [
          ("a-b", .object [("type", .string "string")]),
          ("a_b", .object [("enum", .array [.string "u"])])])]),
        ("ListId", .object [("type", .string "string")])])]
    ∃ document api notices, Document.ofTree tree = .ok document ∧
      tree.hasDistinctKeys = true ∧ run ⟨document, Haskell.target⟩ = some ⟨.ok api, notices⟩ ∧
      api.NamesApart ∧
      (∃ renamed : List Naming, renamed.Perm
          ((api.namings document.schemas.length).filter (Naming.isRenamed Haskell.target)) ∧
        List.Forall₂ (TellsOf Haskell.target) renamed
          ((notices.map Notice.toDiagnostic).filter (·.kind == .identifierCollision))) ∧
      (api.namings document.schemas.length).filter (Naming.isRenamed Haskell.target) = [
        ⟨.field, "a_b", "aB2"⟩, ⟨.type, "ListId", "ListId2"⟩, ⟨.parameter, "id", "id2"⟩,
        ⟨.type, "list id", "ListId3"⟩, ⟨.function, "List", "list2"⟩] := by
  intro tree
  have hview : ((Document.ofTree tree).toOption.bind fun document =>
      (run ⟨document, Haskell.target⟩).bind fun result => result.outcome.toOption.map fun api =>
        (api.namings document.schemas.length).filter (Naming.isRenamed Haskell.target)) = some [
      ⟨.field, "a_b", "aB2"⟩, ⟨.type, "ListId", "ListId2"⟩, ⟨.parameter, "id", "id2"⟩,
      ⟨.type, "list id", "ListId3"⟩, ⟨.function, "List", "list2"⟩] := by
    decide +kernel
  have hkeys : tree.hasDistinctKeys = true := by decide +kernel
  obtain ⟨document, api, notices, hdocument, hrun, hrenamed⟩ := exists_run_of_view hview
  obtain rfl := Document.eq_of_ofTree hdocument
  obtain ⟨happart, htold⟩ := namesApart_of_run_eq_ok hrun hkeys
  exact ⟨_, api, notices, hdocument, hkeys, hrun, happart, htold, hrenamed⟩

end Lowering

end ServantGen
