import ServantGen.Proofs.Ledger.Api
import ServantGen.Proofs.Lowering.Termination

/-!
# The order of an interface

The operations of an interface are those of its document, in order, and its models are those of
the named schemas, in order, with the models that were made on the way behind them. The former
are what their own schemas give, and so are the latter: a question that the run asks about a
schema of the document makes each of them, in the state in which it is asked.
-/

namespace ServantGen.Lowering

variable {setting : Setting}

/-! ## What questions are about -/

/-- When the questions about some sites are answered, the calls are answered whose chains keep to
these sites. -/
theorem answers_typeOfAmong {answered : Question → Bool} {kept : Site → Prop}
    (h : ∀ question, answered question = true ↔ kept question.site) (depth : Nat) :
    Answers setting.document (KeepsWithin setting.document (fun call => kept call.site) depth)
      (typeOfAmong setting answered depth) := by
  induction depth with
  | zero => exact fun _ _ _ _ _ => id
  | succ depth ih =>
    intro call hint location state hstate
    rw [typeOfAmong_run]
    by_cases hkept : kept call.site
    · rw [if_pos ((h _).2 hkept)]
      exact (typeStep_finishes ih call.site hint location).congr (and_iff_right hkept).symm state
        hstate
    · rw [if_neg (mt (h _).1 hkept)]
      exact fun hwithin => hkept hwithin.1

/-- A run asks about sites of the document. -/
theorem QuestionsOf.site_mem (hpaths : setting.document.PathsInTree) {questions : List Question}
    (h : QuestionsOf setting questions) {result : Except BuildError Api × State}
    (hrun : (lowerApi setting).run.run .initial = some result) :
    ∀ question ∈ questions, question.site ∈ setting.document.tree.sites := by
  classical
  let answered (question : Question) : Bool := decide (question.site ∈ setting.document.tree.sites)
  have hdocument := inDocument_documentAgenda hpaths
  have hwithin := (lowerWith_follows (answers_typeOf setting setting.depth)).result rfl hrun
  have hfollows := lowerWith_follows
    (@answers_typeOfAmong setting answered _ (fun _ => decide_eq_true_iff) setting.depth)
  have hasked := h answered
  split at hasked
  · rename_i hall
    exact fun question hmem => of_decide_eq_true (List.all_eq_true.1 hall question hmem)
  · refine absurd (fun call hcall => ?_) (hfollows.no_result rfl hasked)
    exact (hwithin.1 call hcall).keepsWithin (fun _ hown => hown.site) (hdocument call hcall)

/-! ## Order -/

/-- An interface in the order of its document, at the end of a run: the operations are those of
the document, and the table is the models of the named schemas, in order, and the models that
were made on the way. Each of them is what its own schema gives in the course of the run; a model
that was made on the way is made by a question of the run, for the schema that this is about. -/
structure InOrder (setting : Setting) (final : State) (api : Api) (declared added : List Model)
    (questions : List Question) : Prop where
  operations : ∃ sites, setting.document.operations = .ok sites ∧
    List.Forall₂ (fun site operation => operation.method = site.method ∧
      operation.rawPath = site.path) sites api.operations
  table : api.models.models = declared ++ added
  rawNames : declared.map Model.rawName = setting.document.schemas.map Prod.fst
  course : ∃ placed filled, (declareModels setting).run .initial = some (⟨⟩, placed) ∧
    Course setting (typeOf setting setting.depth) placed setting.document.schemas declared filled
  declared : List.Forall₂ (LoweredAt setting (typeOf setting setting.depth) final)
    setting.document.schemas declared
  asked : QuestionsOf setting questions
  sites : ∀ question ∈ questions, question.site ∈ setting.document.tree.sites
  added : ∀ model ∈ added, Made setting (· ∈ questions) final model
  once : api.models.names.Nodup

/-- When a document without repeated keys is lowered to an interface, the interface is in the
order of the document. -/
theorem inOrder_of_run_eq_ok {tree : Json} {document : Document} {target : Target} {api : Api}
    {notices : List Notice} (hdocument : Document.ofTree tree = .ok document)
    (hkeys : tree.hasDistinctKeys = true)
    (h : run ⟨document, target⟩ = some ⟨.ok api, notices⟩) :
    ∃ final declared added questions,
      (lowerApi ⟨document, target⟩).run.run .initial = some (.ok api, final) ∧
      final.models = api.models ∧ final.notices = notices ∧
      InOrder ⟨document, target⟩ final api declared added questions := by
  have hpaths := Document.pathsInTree_of_ofTree hdocument
  obtain rfl := Document.eq_of_ofTree hdocument
  obtain ⟨final, hrun, hnotices, declared, added, claimed, haccount⟩ := account_of_run_eq_ok h hkeys
  obtain ⟨questions, hquestions, hmade⟩ := haccount.made
  refine ⟨final, declared, added, questions, hrun, haccount.table.symm, hnotices, ?_⟩
  exact {
    operations := by
      obtain ⟨sites, hsites, hstand⟩ := haccount.operations
      exact ⟨sites, hsites, hstand.imp fun _ _ h => ⟨h.method, h.rawPath⟩⟩
    table := haccount.models
    rawNames := by
      rw [← List.forall₂_eq_eq_eq, List.forall₂_map_left_iff, List.forall₂_map_right_iff]
      exact (haccount.lowered.imp fun _ _ h => h.rawName).flip
    declared := haccount.lowered
    course := haccount.course
    asked := hquestions
    sites := hquestions.site_mem hpaths hrun
    added := hmade
    once := (List.nodup_append.1 haccount.nodup_types).1 }

/-- Two schemas that refer to each other, one with an object inside and one with an alternative
that is a text. -/
theorem inOrder_of_run_eq_ok_mutual :
    let tree : Json := .object [
      ("info", .object []),
      ("paths", .object [("/pets", .object [("post", .object []), ("get", .object [])])]),
      ("definitions", .object [
        ("Pet", .object [("properties", .object [
          ("kind", .object [("$ref", .string "#/definitions/Kind")]),
          ("home", .object [("properties", .object [("city", .object [])])])])]),
        ("Kind", .object [("oneOf", .array [.object [("type", .string "string")],
          .object [("$ref", .string "#/definitions/Pet")]])])])]
    ∃ document api notices, Document.ofTree tree = .ok document ∧
      tree.hasDistinctKeys = true ∧ run ⟨document, Haskell.target⟩ = some ⟨.ok api, notices⟩ ∧
      (∃ final declared added questions,
        (lowerApi ⟨document, Haskell.target⟩).run.run .initial = some (.ok api, final) ∧
        final.models = api.models ∧ final.notices = notices ∧
        InOrder ⟨document, Haskell.target⟩ final api declared added questions) ∧
      api.models.models.map Model.rawName = ["Pet", "Kind", "Pet home", "Kind variant 1"] := by
  intro tree
  have hview : ((Document.ofTree tree).toOption.bind fun document =>
      (run ⟨document, Haskell.target⟩).bind fun result => result.outcome.toOption.map fun api =>
        api.models.models.map Model.rawName) =
      some ["Pet", "Kind", "Pet home", "Kind variant 1"] := by
    decide +kernel
  have hkeys : tree.hasDistinctKeys = true := by decide +kernel
  obtain ⟨document, api, notices, hdocument, hrun, hnames⟩ := exists_run_of_view hview
  exact ⟨_, api, notices, hdocument, hkeys, hrun, inOrder_of_run_eq_ok hdocument hkeys hrun, hnames⟩

end ServantGen.Lowering
