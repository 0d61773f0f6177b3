import ServantGen.Proofs.Haskell.TypeScope

/-!
# Names that types capture

The module of the interface imports the module of types without qualification, so a type that is
named like something else which either module uses has two meanings there. The names of types avoid
a list of names. What the modules use beyond the list is captured by a type as soon as a document
asks for it.
-/

namespace ServantGen.Haskell

/-! ## Types and classes -/

/-- Types and classes that the generated modules use without qualification, from the server library,
from those for texts and from the prelude, and that are not among the names to be avoided. -/
def unavoidedNames : List String :=
  ["Type", "Capture", "QueryParam", "QueryParams", "Header", "Headers", "ReqBody", "Verb", "JSON",
   "EmptyAPI", "Required", "Strict", "Optional", "FromJSON", "ToJSON", "FromHttpApiData",
   "ToHttpApiData", "Show", "Eq", "Ord", "Enum", "Bounded"]

/-- What the generated modules define or use without qualification. -/
def usedNames : List String :=
  generatedNames ++ unavoidedNames

/-- A name that ends neither with a digit nor with an underscore: it has no number, and it was not
escaped. -/
def IsUnchanged (name : String) : Prop :=
  HasNoNumber name ∧ name.toList.getLast? ≠ some '_'

instance (name : String) : Decidable (IsUnchanged name) :=
  inferInstanceAs (Decidable (_ ∧ _))

/-- No identifier is a name to be avoided. -/
theorem identifier_ne_of_mem_reserved {target : Target}
    (hconvention : target.convention = convention) {name : String}
    (hname : name ∈ target.reserved) (hunchanged : IsUnchanged name) (role : Role)
    (raw : String) : target.identifier role raw ≠ name := by
  unfold Target.identifier
  dsimp only
  split
  · rintro rfl
    simp [hconvention, convention, IsUnchanged] at hunchanged
  · rename_i hfree
    rintro rfl
    exact hfree (List.contains_iff_mem.2 hname)

end ServantGen.Haskell

namespace ServantGen.Lowering

open Haskell

/-- No type of a lowered interface has a name to be avoided. -/
theorem notMem_typeNames_of_mem_reserved {setting : Setting} {api : Api} {notices : List Notice}
    (h : run setting = some ⟨.ok api, notices⟩)
    (hkeys : setting.document.tree.hasDistinctKeys = true)
    (hconvention : setting.target.convention = convention) {name : String}
    (hname : name ∈ setting.target.reserved) (hunchanged : IsUnchanged name) :
    name ∉ api.models.names ++ api.inlineEnums.map InlineEnum.name := by
  obtain ⟨final, -, -, declared, added, claimed, haccount⟩ := account_of_run_eq_ok h hkeys
  intro hmem
  obtain ⟨raw, hnamed⟩ := haccount.exists_namedAfter hmem
  exact identifier_ne_of_mem_reserved hconvention hname hunchanged .type raw
    (hnamed.eq_of_hasNoNumber hunchanged.1).symm

end ServantGen.Lowering

namespace ServantGen.Haskell

open Lowering (run Notice)

/-- Some document, with nothing set for the target, is lowered to an interface with a type of the
name. -/
def CanNameType (name : String) : Prop :=
  ∃ tree document api notices, Document.ofTree tree = .ok document ∧
    tree.hasDistinctKeys = true ∧ run ⟨document, target⟩ = some ⟨.ok api, notices⟩ ∧
    name ∈ typeNames ⟨api, target⟩

/-- The names that are not avoided are all handed out for the schemas of one document. Words of
one letter make capitals that stand together. -/
theorem canNameType_of_mem_unavoidedNames : ∀ name ∈ unavoidedNames, CanNameType name := by
  let schemas : List String :=
    ["Type", "Capture", "QueryParam", "QueryParams", "Header", "Headers", "ReqBody", "Verb",
     "J_S_O_N", "Empty_A_P_I", "Required", "Strict", "Optional", "From_J_S_O_N", "To_J_S_O_N",
     "FromHttpApiData", "ToHttpApiData", "Show", "Eq", "Ord", "Enum", "Bounded"]
  let tree : Json := .object [
    ("info", .object []),
    ("paths", .object []),
    ("definitions", .object (schemas.map fun name => (name, .object [])))]
  have hview : ((Document.ofTree tree).toOption.bind fun document =>
      (run ⟨document, target⟩).bind fun result => result.outcome.toOption.map
        fun api => typeNames ⟨api, target⟩) = some unavoidedNames := by
    decide +kernel
  have hkeys : tree.hasDistinctKeys = true := by decide +kernel
  obtain ⟨document, api, notices, hdocument, hrun, hnames⟩ := Lowering.exists_run_of_view hview
  exact fun name hname => ⟨tree, document, api, notices, hdocument, hkeys, hrun, hnames ▸ hname⟩

/-- A type can get a name that the generated modules use with another meaning, unless that name is
among those to be avoided. -/
theorem canNameType_iff {name : String} (h : name ∈ usedNames) :
    CanNameType name ↔ name ∉ generatedNames := by
  constructor
  · rintro ⟨tree, document, api, notices, hdocument, hkeys, hrun, hname⟩ hgenerated
    obtain rfl := Document.eq_of_ofTree hdocument
    have hunchanged : ∀ name ∈ generatedNames, IsUnchanged name := by decide
    exact Lowering.notMem_typeNames_of_mem_reserved hrun hkeys rfl
      (List.mem_append_right _ hgenerated) (hunchanged name hgenerated) hname
  · intro hgenerated
    exact canNameType_of_mem_unavoidedNames name ((List.mem_append.1 h).resolve_left hgenerated)

/-- A class of a library is not among the names to be avoided, and the type of texts is. -/
theorem canNameType_iff_fromJSON :
    ("FromJSON" ∈ usedNames ∧ CanNameType "FromJSON") ∧
      "Text" ∈ usedNames ∧ ¬ CanNameType "Text" := by
  have hclass : "FromJSON" ∈ usedNames := by decide
  have htext : "Text" ∈ usedNames := by decide
  exact ⟨⟨hclass, (canNameType_iff hclass).2 (by decide)⟩, htext,
    fun h => (canNameType_iff htext).1 h (by decide)⟩

/-- A schema with the name of a kind: the module of the interface imports both. -/
theorem kind_imported_twice :
    let tree : Json := .object [
      ("info", .object []),
      ("paths", .object []),
      ("components", .object [
        ("schemas", .object [("Type", .object [("type", .string "string")])])])]
    ∃ document api notices, Document.ofTree tree = .ok document ∧
      tree.hasDistinctKeys = true ∧ run ⟨document, target⟩ = some ⟨.ok api, notices⟩ ∧
      typeNames ⟨api, target⟩ = ["Type"] ∧
      ∃ text notes, apiTemplate.render ⟨api, target⟩ .api = .ok (.file text notes) ∧
        ⟨"Data.Kind", "Type"⟩ ∈ importsOf (declarationsOf text) ∧
        ["import", moduleName ⟨api, target⟩ ++ ".Types"] ∈ declarationsOf text := by
  intro tree
  have hview : ((Document.ofTree tree).toOption.bind fun document =>
      (run ⟨document, target⟩).bind fun result => result.outcome.toOption.map
        fun api => (hasTypes ⟨api, target⟩, typeNames ⟨api, target⟩)) = some (true, ["Type"]) := by
    decide +kernel
  have hkeys : tree.hasDistinctKeys = true := by decide +kernel
  obtain ⟨document, api, notices, hdocument, hrun, hread⟩ := Lowering.exists_run_of_view hview
  obtain ⟨hhas, hnames⟩ := Prod.mk.inj hread
  obtain rfl := Document.eq_of_ofTree hdocument
  have hlegible := Lowering.legible_of_run_eq_ok hrun hkeys rfl
  obtain ⟨text, notes, hrender, himports⟩ := @exists_importsHere ⟨api, target⟩ hlegible.refers rfl
  exact ⟨_, api, notices, hdocument, hkeys, hrun, hnames, text, notes, hrender, himports.kind,
    himports.types hhas⟩

end ServantGen.Haskell
