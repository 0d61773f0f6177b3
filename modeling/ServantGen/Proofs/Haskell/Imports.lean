import ServantGen.Proofs.Haskell.WrittenLines

/-!
# Imports and exports of a module

The head of a module says by name what it exports and what it imports. A reader finds these names
between parentheses and commas. Whatever a module needs from a library is listed in the line of its
own library, and no name from a document is among these lines.
-/

namespace ServantGen.Haskell

open Text (MadeOf OnOneLine)

/-! ## Reading lists -/

def listedItems (list : List String) : List (List String) :=
  (unwrap? list).toList.flatMap (splitOuter "," 0)

/-- The name of an item: alone, or with all its constructors or methods. -/
def itemName? : List String → Option String
  | [name] | [name, "(", "..", ")"] => some name
  | _ => none

def importsIn : List String → List Import
  | "import" :: module :: list => ((listedItems list).filterMap itemName?).map (Import.mk module)
  | _ => []

def importsOf (declarations : List (List String)) : List Import :=
  declarations.flatMap importsIn

def exportsIn : List String → List (List String)
  | "module" :: _ :: list =>
    if list.getLast? = some "where" then listedItems list.dropLast else []
  | _ => []

def exportsOf (declarations : List (List String)) : List (List String) :=
  declarations.flatMap exportsIn

/-- Phrases between parentheses are the items. -/
theorem listedItems_enclosed {items : List (List String)} (hne : items ≠ [])
    (h : ∀ item ∈ items, Phrase "," item) :
    listedItems ("(" :: [","].intercalate items ++ [")"]) = items := by
  have hbalanced : Balanced ([","].intercalate items) :=
    Balanced.intercalate (by decide) fun item hitem => (h item hitem).balanced
  rw [listedItems, unwrap?_enclosed hbalanced, Option.toList_some, List.flatMap_singleton,
    splitOuter_intercalate hne h]

/-! ## Lines of imports -/

def moduleImports : List Import :=
  libraryImports ++ [⟨"Data.Aeson", "FromJSON (..)"⟩, ⟨"Data.Aeson", "ToJSON (..)"⟩,
    ⟨"GHC.Generics", "Generic"⟩, ⟨"Web.HttpApiData", "FromHttpApiData (..)"⟩,
    ⟨"Web.HttpApiData", "ToHttpApiData (..)"⟩, ⟨"Control.Applicative", "(<|>)"⟩]

def importedNames (imports : List Import) (module : String) : List String :=
  sortedOnce ((imports.filter (·.module == module)).map Import.name)

def importDeclaration (imports : List Import) (module : String) : List String :=
  "import" :: module :: "(" :: [","].intercalate ((importedNames imports module).map lexemes) ++
    [")"]

def importDeclarations (imports : List Import) : List (List String) :=
  (sortedOnce (imports.map Import.module)).map (importDeclaration imports)

theorem reads_moduleImports : ∀ own ∈ moduleImports, Reads false own.module [own.module] ∧
    Reads false own.name (lexemes own.name) ∧ Phrase "," (lexemes own.name) := by
  decide +kernel

section Lines

variable {imports : List Import} (himports : imports ⊆ moduleImports)
include himports

theorem forall_mem_importedNames (module : String) : ∀ name ∈ importedNames imports module,
    Reads false name (lexemes name) ∧ Phrase "," (lexemes name) := by
  intro name hname
  obtain ⟨own, hown, rfl⟩ := List.mem_map.1 (mem_sortedOnce.1 hname)
  exact (reads_moduleImports own (himports (List.mem_of_mem_filter hown))).2

theorem reads_importLine {module : String} (hmodule : module ∈ imports.map Import.module) :
    Reads true ("import " ++ module ++ " (" ++ Text.join ", " (importedNames imports module) ++
      ")") (importDeclaration imports module) := by
  obtain ⟨own, hown, rfl⟩ := List.mem_map.1 hmodule
  have hname := (reads_moduleImports own (himports hown)).1
  have hnames := forall_mem_importedNames himports own.module
  have hcomma : Spells ", " [","] := by decide
  obtain ⟨hends, hlexemes⟩ := endsPlainly_join hcomma (by decide) fun name hmem =>
    (hnames name hmem).1.endsPlainly
  have hline : OnOneLine (Text.join ", " (importedNames imports own.module)) :=
    Text.madeOf_join (by decide) fun name hmem => (hnames name hmem).1.line
  have hlist := hends.reads hline
  rw [hlexemes] at hlist
  have himport : Reads true "import " ["import"] := by decide
  have hopening : Reads true " (" ["("] := by decide
  have hclosing : Reads true ")" [")"] := by decide
  exact (((himport.behind hname).append hopening (by decide)).behind hlist).append hclosing
    (by decide)

/-- The lines of imports are read one by one. -/
theorem readsAs_importLines : ReadsAs (importLines imports) (importDeclarations imports) ∧
    ∀ line ∈ importLines imports, OnOneLine line := by
  have hreads : ∀ module ∈ sortedOnce (imports.map Import.module),
      Reads true ("import " ++ module ++ " (" ++
        Text.join ", " (importedNames imports module) ++ ")")
        (importDeclaration imports module) := fun module hmodule =>
    reads_importLine himports (mem_sortedOnce.1 hmodule)
  constructor
  · have hlines := @ReadsAs.flatMap _ (sortedOnce (imports.map Import.module))
      (fun module => ["import " ++ module ++ " (" ++
        Text.join ", " (importedNames imports module) ++ ")"]) (importDeclaration imports) ?_
    · rwa [← List.map_eq_flatMap] at hlines
    · intro module hmodule
      have hline := hreads module hmodule
      have hrows := readsAs_rows (hline.begins (by simp [importDeclaration]) (by simp)) []
      simpa [hline.lexemes_eq] using hrows
  · exact List.forall_mem_map.2 fun module hmodule => (hreads module hmodule).line

/-- What is imported from a library is listed in its line. -/
theorem mem_importsOf_importDeclarations {own : Import} (hown : own ∈ imports)
    (hlibrary : own ∈ libraryImports) : own ∈ importsOf (importDeclarations imports) := by
  have hsingle : ∀ own ∈ libraryImports, lexemes own.name = [own.name] := by decide
  have hname : own.name ∈ importedNames imports own.module := by
    refine mem_sortedOnce.2 (List.mem_map_of_mem (List.mem_filter.2 ⟨hown, ?_⟩))
    exact beq_self_eq_true _
  refine List.mem_flatMap.2 ⟨importDeclaration imports own.module, ?_, ?_⟩
  · exact List.mem_map_of_mem (mem_sortedOnce.2 (List.mem_map_of_mem hown))
  · have hitems : listedItems ("(" :: [","].intercalate
        ((importedNames imports own.module).map lexemes) ++ [")"]) =
        (importedNames imports own.module).map lexemes := by
      refine listedItems_enclosed (by simpa using List.ne_nil_of_mem hname) ?_
      exact List.forall_mem_map.2 fun name hmem =>
        (forall_mem_importedNames himports own.module name hmem).2
    unfold importDeclaration
    simp only [List.cons_append, importsIn] at hitems ⊢
    rw [hitems]
    refine List.mem_map.2 ⟨own.name, List.mem_filterMap.2 ⟨[own.name], ?_, rfl⟩, rfl⟩
    exact hsingle own hlibrary ▸ List.mem_map_of_mem hname

end Lines

theorem importsOf_append (first rest : List (List String)) :
    importsOf (first ++ rest) = importsOf first ++ importsOf rest :=
  List.flatMap_append

/-! ## The module of the interface -/

/-- The name of a module is one lexeme, with dots between its parts. -/
theorem reads_moduleName {name part : String} (h : MadeOf Char.isAlphanum name)
    (hpart : part ≠ "") (hchars : MadeOf (fun c => isWordChar c && c != '-') part)
    (hline : OnOneLine part) : Reads false (name ++ part) [name ++ part] := by
  have hscan : Reading.start.scan (name ++ part).toList = (.word (name ++ part).toList, []) := by
    refine Reading.scan_word List.not_mem_nil fun c hc => ?_
    rw [String.toList_append, List.mem_append] at hc
    obtain hc | hc := hc
    · exact isWordChar_of_identifier (by simp [h c hc])
    · simpa using hchars c hc
  have hdashes : isDashes (name ++ part).toList = false := by
    refine isDashes_eq_false fun hmem => ?_
    rw [String.toList_append, List.mem_append] at hmem
    obtain hmem | hmem := hmem
    · exact absurd (h _ hmem) (by decide)
    · exact absurd (hchars _ hmem) (by decide)
  refine ⟨Text.madeOf_append.2 ⟨onOneLine_of_isAlphanum h, hline⟩,
    plainLexemes?_eq_some_iff.2 ⟨_, _, hscan, hdashes, by simp, ?_⟩⟩
  have hne : (name ++ part).toList ≠ [] := by simp [hpart]
  rw [wordLexemes, if_neg (not_or.2 ⟨hne, by rw [hdashes]; decide⟩), String.ofList_toList]
  rfl

/-- A keyword and behind it the module of types. -/
theorem reads_typesModule {lead keyword name : String} (hlead : Reads true lead [keyword])
    (hname : MadeOf Char.isAlphanum name) :
    Reads false (lead ++ name ++ ".Types") [keyword, name ++ ".Types"] := by
  rw [String.append_assoc]
  exact hlead.behind (reads_moduleName hname (by decide) (by decide) (by decide))

namespace ApiModule

variable (context : RenderContext) {api : ApiModule}

def importedHere (api : ApiModule) : List (List String) :=
  importDeclarations api.imports ++ [["import", "Servant"]] ++
    if hasTypes context then [["import", api.module ++ ".Types"]] else []

/-- The types are imported where there are any. -/
theorem readsAs_typesImport (hmodule : MadeOf Char.isAlphanum api.module) : ReadsAs
    (if hasTypes context then ["", "import " ++ api.module ++ ".Types"] else [])
    (if hasTypes context then [["import", api.module ++ ".Types"]] else []) := by
  split
  · have himport : Reads true "import " ["import"] := by decide
    have hline := reads_typesModule himport hmodule
    have hrow := readsAs_rows (hline.begins (by simp) (by simp)) []
    rw [hline.lexemes_eq] at hrow
    exact (readsAs_silent rfl).append hrow
  · exact readsAs_nil

/-- The imports of the module are read as they were meant, whatever the module is made of. -/
theorem importedHere_subset (h : api.HasPlainNames) :
    api.importedHere context ⊆ declarationsOf ((api.code context).text indentStep) := by
  obtain ⟨remark, name, others, hlines⟩ := exists_splitOn_text_code context api h
  -- The opening begins with a declaration, and so does what follows the imports.
  obtain ⟨rest, hrest⟩ : ∃ rest, (api.opening context).rows indentStep =
      pragma "DataKinds" :: rest := by
    simp [opening, writeExports]
  have hfirst : ReadsAs ((api.opening context).rows indentStep) (readLines (pragma "DataKinds" ::
      rest)).2 := hrest ▸ readsAs_readLines (by decide) rest
  have htype : Spells "type " ["type"] := by decide
  have hlast : ReadsAs (("type " ++ name) :: others) (readLines (("type " ++ name) :: others)).2 :=
    readsAs_readLines (beginsDeclaration_append htype (by decide) name) others
  have hsilent : ReadsAs ["", "-- | " ++ remark] [] :=
    (readsAs_silent rfl).append (readsAs_silent (lexemes_comment (by simp)))
  have hbehind : ReadsAs ("" :: ("-- | " ++ remark) :: ("type " ++ name) :: others)
      (readLines (("type " ++ name) :: others)).2 := hsilent.append hlast
  have hlibrary : api.imports ⊆ moduleImports := fun own hown =>
    List.mem_append_left _ (api.imports_subset hown)
  have hservant : ReadsAs ["import Servant"] [["import", "Servant"]] := by decide
  have hwhole := (((hfirst.append (readsAs_importLines hlibrary).1).append hservant).append
    (readsAs_typesImport context h.module)).append hbehind
  rw [declarationsOf, hlines, rows_head, hwhole, List.append_assoc _ (importDeclarations _),
    List.append_assoc _ (importDeclarations _ ++ _)]
  exact List.subset_append_of_subset_left _ (List.subset_append_right _ _)

end ApiModule

end ServantGen.Haskell
