import ServantGen.Proofs.Haskell.Imports
import ServantGen.Proofs.Haskell.TypeDeclarations

/-!
# The text of the module of types

The names of a lowered interface are spelled as the language asks for, so the names that are handed
out for its types are as well. What is read of the text of the module is thus known: its head with
exports and imports, and behind it what each type was declared with.
-/

namespace ServantGen.Haskell

open Text (MadeOf OnOneLine)

/-! ## Spelled types -/

/-- A type whose names are spelled as the language asks for. -/
structure IsSpelledModel (model : Model) : Prop where
  name : IsConstructorName model.name
  fields : ∀ field ∈ model.fields, Text.Casing.pascal.apply field.name ≠ ""
  variants : ∀ variants, model.shape = .union variants → ∀ name ∈ variants, IsConstructorName name

section Spelled

variable {api : Api} (hspelled : api.WellSpelled) (hrefers : api.RefersToItself)
include hspelled hrefers

/-- Every type that the interface mentions has capital names. -/
theorem hasCapitals_of_mem_allTypes {type : DataType} (htype : type ∈ api.allTypes) :
    HasCapitals type where
  models := by
    intro name hname
    refine hspelled.types name (List.mem_append_left _ ?_)
    exact ModelTable.contains_iff.1 (hrefers.types type htype name hname)
  enums := by
    intro entry hentry
    refine hspelled.types entry.1 (List.mem_append_right _ ?_)
    exact List.mem_map_of_mem (f := InlineEnum.name) (hrefers.enums type htype entry hentry)

theorem isSpelledModel_of_mem_declaredTypes {model : Model} (hmodel : model ∈ declaredTypes api) :
    IsSpelledModel model := by
  obtain hmodel | hinline := List.mem_append.1 hmodel
  · refine ⟨hspelled.types _ (List.mem_append_left _ (List.mem_map_of_mem hmodel)),
      hspelled.fields model hmodel, fun variants hshape name hname => ?_⟩
    refine hspelled.types name (List.mem_append_left _ ?_)
    exact ModelTable.contains_iff.1 (hrefers.variants model hmodel variants hshape name hname)
  · obtain ⟨inline, hmem, rfl⟩ := List.mem_map.1 hinline
    refine ⟨hspelled.types _ (List.mem_append_right _ (List.mem_map_of_mem hmem)), ?_, ?_⟩
    · simp [InlineEnum.asModel, Model.fields]
    · simp [InlineEnum.asModel]

end Spelled

/-! ## Types in declarations -/

theorem Shows.isFull {title : String} {discriminator : Option Discriminator} {shape : Shape}
    {body : DeclarationBody} (h : Shows title discriminator shape body) : body.IsFull := by
  cases h with
  | unit => trivial
  | record hne hfields =>
    rintro rfl
    exact hne (List.forall₂_nil_right_iff.1 hfields)
  | noValues => trivial
  | enum hne => exact hne
  | noVariants => trivial
  | union hne => exact hne
  | «alias» type => trivial

section Types

variable {P : DataType → Prop} (hstring : P .string) (hany : P .any)
include hstring hany

/-- The types in a declaration are those of the model, or its variants. -/
theorem Shows.forall_types {model : Model} {body : DeclarationBody}
    (h : Shows model.rawName model.discriminator model.shape body)
    (htypes : ∀ type ∈ model.types, P type)
    (hvariants : ∀ variants, model.shape = .union variants → ∀ name ∈ variants, P (.named name)) :
    ∀ type ∈ body.types, P type := by
  unfold Model.types at htypes
  generalize model.shape = shape at h htypes hvariants
  cases h with
  | unit => simp [DeclarationBody.types]
  | record hne hfields =>
    refine List.forall_mem_map.2 fun selector hselector => ?_
    obtain ⟨field, hfield, -, htype⟩ := Outcomes.exists_of_mem_of_forall₂ hfields hselector
    exact htype ▸ htypes field.type (List.mem_map_of_mem hfield)
  | noValues => exact List.forall_mem_singleton.2 hstring
  | enum hne => simp [DeclarationBody.types]
  | noVariants => exact List.forall_mem_singleton.2 hany
  | union hne =>
    exact List.forall_mem_map.2 fun entry hentry =>
      hvariants _ rfl _ (List.mem_map_of_mem hentry)
  | «alias» type => exact htypes

/-- What holds of all types of an interface and of its models holds of the types in declarations. -/
theorem TypesModule.IsFor.forall_types {context : RenderContext} {types : TypesModule}
    (h : types.IsFor context) (hrefers : context.api.RefersToItself)
    (hall : ∀ type ∈ context.api.allTypes, P type)
    (hnamed : ∀ name ∈ context.api.models.names, P (.named name)) :
    ∀ declaration ∈ types.declarations, ∀ type ∈ declaration.body.types, P type := by
  intro declaration hmem
  obtain ⟨model, hmodel, hdeclares⟩ := Outcomes.exists_of_mem_of_forall₂ h.declares hmem
  refine hdeclares.body.forall_types hstring hany ?_ ?_
  all_goals obtain hmodel | hinline := List.mem_append.1 hmodel
  · exact fun type htype => hall type (List.mem_append_left _ (List.mem_append_left _
      (List.mem_flatMap.2 ⟨model, hmodel, htype⟩)))
  · obtain ⟨inline, -, rfl⟩ := List.mem_map.1 hinline
    simp [InlineEnum.asModel, Model.types]
  · exact fun variants hshape name hname => hnamed name
      (ModelTable.contains_iff.1 (hrefers.variants model hmodel variants hshape name hname))
  · obtain ⟨inline, -, rfl⟩ := List.mem_map.1 hinline
    simp [InlineEnum.asModel]

end Types

/-! ## Names that are handed out -/

/-- A name that is handed out is spelled like the one that was asked for. -/
theorem NamedAfter.isSpelled {kind : NameKind} {asked given : String} (h : NamedAfter asked given)
    (hasked : kind.IsSpelled asked) : kind.IsSpelled given := by
  cases kind with
  | constructor => exact h.isName hasked
  | value =>
    refine ⟨h.isName hasked.1, fun hlower => hasked.2 ?_⟩
    obtain ⟨more, rfl, -⟩ := h.exists_append
    exact (Text.madeOf_append.1 hlower).1

section Declared

variable {context : RenderContext} {model : Model} (hmodel : IsSpelledModel model)
include hmodel

theorem isSpelled_of_mem_askedNames (hconvention : context.target.convention = convention) :
    ∀ entry ∈ askedNames context model, entry.1.IsSpelled entry.2 := by
  have hlower := isValueName_lowerFirst hmodel.name
  -- The two functions of a record have a capital behind the name of the model.
  have hfunction : ∀ part : String, MadeOf (fun c => c.isAlphanum || c == '_') part →
      ¬ MadeOf Char.isLower part →
      NameKind.IsSpelled .value (lowerFirst model.name ++ part) := fun part hchars hpart =>
    ⟨hlower.append hchars, fun h => hpart (Text.madeOf_append.1 h).2⟩
  unfold askedNames
  split
  · rename_i fields hshape
    have hfields : ∀ field ∈ fields, Text.Casing.pascal.apply field.name ≠ "" := by
      simpa [Model.fields, hshape] using hmodel.fields
    unfold recordNames
    split
    · simp
    · refine List.forall_mem_append.2 ⟨List.forall_mem_map.2 fun field hfield => ?_, ?_⟩
      · refine ⟨isValueName_selectorName hmodel.name field.name, fun hmade => ?_⟩
        exact NamedAfter.ne_of_isLower (.inl rfl) (hfields field hfield) hmade rfl
      · simp only [List.forall_mem_cons, List.not_mem_nil, false_imp_iff, implies_true, and_true]
        exact ⟨hfunction _ (by decide) (by decide), hfunction _ (by decide) (by decide)⟩
  · rename_i values hshape
    refine List.forall_mem_map.2 fun value _ => hmodel.name.append ?_
    rw [hconvention]
    exact (isWord_base .variant value).made
  · rename_i variants hshape
    exact List.forall_mem_map.2 fun variant hvariant =>
      hmodel.name.append (hmodel.variants variants hshape variant hvariant).word.made
  · simp

/-- A declared type is well named. -/
theorem DeclaresType.wellNamed {declaration : Declaration}
    (h : DeclaresType context model declaration)
    (htypes : ∀ type ∈ declaration.body.types, HasCapitals type)
    (hconvention : context.target.convention = convention) : declaration.WellNamed where
  name := h.name ▸ hmodel.name
  names := by
    intro entry hentry
    obtain ⟨asked, hasked, hkind, hnamed⟩ := Outcomes.exists_of_mem_of_forall₂ h.names hentry
    exact hkind ▸ hnamed.isSpelled (isSpelled_of_mem_askedNames hmodel hconvention asked hasked)
  types := htypes
  full := h.body.isFull

end Declared

/-! ## The module -/

/-- What a declaration imports is among what generated modules import. -/
theorem imports_body_subset (body : DeclarationBody) : body.imports ⊆ moduleImports := by
  have htype : ∀ type : DataType, typeImports type ⊆ moduleImports := fun type own hown =>
    List.mem_append_left _ (typeImports_subset type hown)
  have hurl : urlImports ⊆ moduleImports := by decide
  cases body with
  | unit => simp [DeclarationBody.imports]
  | record selectors options label =>
    intro own hown
    obtain ⟨selector, -, hown⟩ := List.mem_flatMap.1 hown
    exact htype selector.type hown
  | enum title constructors => exact hurl
  | union constructors discriminator =>
    cases discriminator with
    | none => exact (by decide : [⟨"Control.Applicative", "(<|>)"⟩] ⊆ moduleImports)
    | some discriminator => exact (by decide : [⟨"Data.Text", "Text"⟩] ⊆ moduleImports)
  | newtype type =>
    refine List.append_subset.2 ⟨htype type, ?_⟩
    split
    · exact hurl
    · simp

namespace TypesModule

variable (types : TypesModule)

theorem imports_subset : types.imports ⊆ moduleImports := by
  refine List.append_subset.2 ⟨by decide, ?_⟩
  intro own hown
  obtain ⟨declaration, -, hown⟩ := List.mem_flatMap.1 hown
  exact imports_body_subset declaration.body hown

/-- What is exported of a type: the type with all its constructors and fields. -/
def exportedItem (name : String) : List String :=
  [name, "(", "..", ")"]

def headDeclarations : List (List String) :=
  ["DeriveGeneric", "OverloadedStrings"].map
      (fun name => ["\x7b", "-#", "LANGUAGE", name, "#-", "\x7d"]) ++
    ["module" :: (types.module ++ ".Types") :: "(" ::
      [","].intercalate (types.declarations.map fun declaration => exportedItem declaration.name) ++
      [")", "where"]] ++
    importDeclarations types.imports ++ [["import", "qualified", "Data.Aeson", "as", "Aeson"]]

variable {types} {context : RenderContext}

/-- The comment at the head of a file declares nothing. -/
theorem adds_headerComment {what : String} (h : OnOneLine what) (code : Code) :
    Adds code (code.lines (headerComment context what)) [] := by
  have hlexemes : ∀ line ∈ headerComment context what, lexemes line = [] := by
    simp only [headerComment, List.forall_mem_cons, List.not_mem_nil, false_imp_iff, implies_true,
      and_true]
    exact ⟨lexemes_comment (by simp), by decide, by decide⟩
  exact .silent fun line hline =>
    ⟨onOneLine_headerComment context h line hline, hlexemes line hline⟩

/-- The module is named, and every type is exported with all that is in it. -/
theorem adds_moduleHead (hmodule : MadeOf Char.isAlphanum types.module)
    (hne : types.declarations ≠ [])
    (hnames : ∀ declaration ∈ types.declarations, IsWord declaration.name) (code : Code) :
    Adds code (code.line ("module " ++ types.module ++ ".Types") |> writeExports types.exports)
      ["module" :: (types.module ++ ".Types") :: "(" ::
        [","].intercalate (types.declarations.map fun declaration =>
          exportedItem declaration.name) ++ [")", "where"]] := by
  have hlead : Reads true "module " ["module"] := by decide
  have hline := reads_typesModule hlead hmodule
  have hitem : ∀ declaration ∈ types.declarations,
      Reads true (declaration.name ++ " (..)") (exportedItem declaration.name) := by
    have hall : Reads true " (..)" ["(", "..", ")"] := by decide
    exact fun declaration hmem => (hnames declaration hmem).reads.append hall (by decide)
  have hread : types.exports.map lexemes =
      types.declarations.map fun declaration => exportedItem declaration.name := by
    rw [exports, List.map_map]
    exact List.map_congr_left fun declaration hmem => (hitem declaration hmem).lexemes_eq
  have hexports : ∀ text ∈ types.exports, Reads false text (lexemes text) :=
    List.forall_mem_map.2 fun declaration hmem =>
      (hitem declaration hmem).endsPlainly.reads (hitem declaration hmem).line
  have hopening : Reads true "( " ["("] := by decide
  have hcomma : Reads true ", " [","] := by decide
  have hclosing : Reads false ") where" [")", "where"] := by decide
  have hinside := (@addsInside_marked (code.line ("module " ++ types.module ++ ".Types")).indent
    _ _ _ _ hopening hcomma _ (by simpa [exports] using hne) _ hexports).trans (.line hclosing)
  rw [hread] at hinside
  exact (Adds.declaration hline (hline.begins (by simp) (by simp)) hinside).trans (.blank _)

theorem adds_head (hmodule : MadeOf Char.isAlphanum types.module) (hne : types.declarations ≠ [])
    (hnames : ∀ declaration ∈ types.declarations, IsWord declaration.name) :
    Adds Code.empty (types.head context) types.headDeclarations := by
  have hpragmas : ∀ code : Code, Adds code
      (code.lines (["DeriveGeneric", "OverloadedStrings"].map pragma))
      (["DeriveGeneric", "OverloadedStrings"].map
        fun name => ["\x7b", "-#", "LANGUAGE", name, "#-", "\x7d"]) := fun code =>
    .lines (by decide) (by decide)
  obtain ⟨himports, hlines⟩ := readsAs_importLines types.imports_subset
  have hqualified : Reads false "import qualified Data.Aeson as Aeson"
      ["import", "qualified", "Data.Aeson", "as", "Aeson"] := by decide
  exact ((((hpragmas _).trans (.blank _)).trans (adds_headerComment (by decide) _)).trans
    (adds_moduleHead hmodule hne hnames _)).trans
      ((Adds.lines hlines himports).trans (.line hqualified (by decide)))

abbrev ReadsOf (declarations : List Declaration) (parts : List (List (List String))) : Prop :=
  List.Forall₂ (fun declaration part => ∃ instances, declaration.IsReadAs part instances)
    declarations parts

/-- The module is read as its head and its declarations. -/
theorem exists_declarationsOf_code (hmodule : MadeOf Char.isAlphanum types.module)
    (hne : types.declarations ≠ [])
    (h : ∀ declaration ∈ types.declarations, declaration.WellNamed) :
    ∃ parts, ReadsOf types.declarations parts ∧
      declarationsOf ((types.code context).text indentStep) =
        types.headDeclarations ++ parts.flatten := by
  have hhead := @adds_head types context hmodule hne fun declaration hmem =>
    (h declaration hmem).name.word
  obtain ⟨parts, hparts, hadds⟩ := @Adds.foldl (types.head context) _
    (fun code declaration => declaration.write code.blank)
    (fun declaration part => ∃ instances, declaration.IsReadAs part instances) types.declarations
    fun declaration hmem code => by
      obtain ⟨part, hpart, hread⟩ := (h declaration hmem).adds_write code.blank
      exact ⟨part, (Adds.blank code).trans hpart, hread⟩
  obtain ⟨-, hrows, rows, hwritten, hread⟩ := (hhead.trans hadds) rfl Code.isRows_empty
  refine ⟨parts, hparts, ?_⟩
  have hlast : ReadsAs [""] [] := by decide
  rw [declarationsOf, code_eq_foldl, Code.splitOn_text hrows, hwritten, Code.rows_empty,
    List.nil_append, hread.append hlast, List.append_nil]

structure IsReadFrom (context : RenderContext) (types : TypesModule) (read : List (List String)) :
    Prop where
  isFor : types.IsFor context
  wellNamed : ∀ declaration ∈ types.declarations, declaration.WellNamed
  full : types.declarations ≠ []
  parts : ∃ parts, ReadsOf types.declarations parts ∧ read = types.headDeclarations ++ parts.flatten

/-- Where there are types, the template makes a file that is read as the module. -/
theorem exists_isReadFrom (hspelled : context.api.WellSpelled)
    (hrefers : context.api.RefersToItself) (hnames : context.api.NamesApart)
    (hconvention : context.target.convention = convention) (hhas : hasTypes context = true) :
    ∃ (types : TypesModule) (text : String),
      typesTemplate.render context .api = .ok (.file text types.notes) ∧
      types.IsReadFrom context (declarationsOf text) := by
  have honce : (typeNames context).Nodup := by
    rw [typeNames, hnames.enums]
    exact hnames.types
  obtain ⟨types, htypes, hfor⟩ := exists_typesModule hrefers honce
  have hcapitals := hfor.forall_types ⟨by simp, by simp⟩ ⟨by simp, by simp⟩ hrefers
    (fun type => hasCapitals_of_mem_allTypes hspelled hrefers) fun name hname =>
      ⟨List.forall_mem_singleton.2 (hspelled.types name (List.mem_append_left _ hname)), by simp⟩
  have hwell : ∀ declaration ∈ types.declarations, declaration.WellNamed := by
    intro declaration hmem
    obtain ⟨model, hmodel, hdeclares⟩ := Outcomes.exists_of_mem_of_forall₂ hfor.declares hmem
    exact hdeclares.wellNamed (isSpelledModel_of_mem_declaredTypes hspelled hrefers hmodel)
      (hcapitals declaration hmem) hconvention
  have hfull : types.declarations ≠ [] := by
    intro hnil
    have hnone := hfor.declares
    rw [hnil, List.forall₂_nil_right_iff, declaredTypes, List.append_eq_nil_iff,
      List.map_eq_nil_iff] at hnone
    simp [hasTypes, hnone] at hhas
  obtain ⟨parts, hparts, hread⟩ := @exists_declarationsOf_code types context
    (hfor.module ▸ madeOf_moduleName hconvention) hfull hwell
  refine ⟨types, _, ?_, hfor, hwell, hfull, parts, hparts, hread⟩
  simp only [typesTemplate, wholeApi, hhas, htypes]
  rfl

end TypesModule

open Lowering (run Notice)

/-- Whatever an interface was lowered from, its module of types is read as it was declared, or there
is none because there are no types. -/
theorem elided_or_isReadFrom {document : Document} {settings : TargetSettings} {api : Api}
    {notices : List Notice}
    (h : run ⟨document, settings.apply target⟩ = some ⟨.ok api, notices⟩)
    (hkeys : document.tree.hasDistinctKeys = true) :
    let context : RenderContext := ⟨api, settings.apply target⟩
    (typeNames context = [] ∧ typesTemplate.render context .api = .ok .elided) ∨
      ∃ (types : TypesModule) (text : String),
        typesTemplate.render context .api = .ok (.file text types.notes) ∧
          types.IsReadFrom context (declarationsOf text) := by
  intro context
  have hrefers := (Lowering.legible_of_run_eq_ok h hkeys rfl).refers
  obtain ⟨_, _, _, _, _, _, haccount⟩ := Lowering.account_of_run_eq_ok h hkeys
  cases hhas : hasTypes context with
  | false =>
    refine .inl ⟨?_, (@render_typesTemplate context hrefers).1 hhas⟩
    simpa [typeNames, hasTypes, ModelTable.names] using hhas
  | true =>
    exact .inr (TypesModule.exists_isReadFrom (Lowering.wellSpelled_of_run_eq_ok h hkeys rfl)
      hrefers haccount.namesApart rfl hhas)

end ServantGen.Haskell
