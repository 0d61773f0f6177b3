import Mathlib.Data.List.TakeWhile
import ServantGen.Haskell.TypesModule
import ServantGen.Proofs.Haskell.Names

/-!
# What generated files say about each other

A reader of a module finds its imports in front of its first declaration, and a reader of the
package description finds the exposed modules below their heading. Both are read here from the
text alone. What is read is what was meant: no title, version or tag can add an import or a
module, since all that is written before the first declaration stays on its line.
-/

namespace ServantGen.Haskell

open Text (MadeOf OnOneLine)

/-! ## Reading modules and package descriptions -/

def firstWord (line : String) : String :=
  (Text.splitOn ' ' line).headD ""

def declarationWords : List String :=
  ["class", "data", "instance", "newtype", "type"]

def opensDeclaration (line : String) : Bool :=
  declarationWords.contains (firstWord line)

def importedModule? (line : String) : Option String :=
  match Text.splitOn ' ' line with
  | word :: name :: rest =>
    if word ≠ "import" then none else if name = "qualified" then rest.head? else some name
  | _ => none

/-- The modules that a module imports; all imports stand in front of the declarations. -/
def importedModules (text : String) : List String :=
  ((Text.splitOn '\n' text).takeWhile (!opensDeclaration ·)).filterMap importedModule?

/-- What follows the blanks of the first lines that have at least four. -/
def indentedLines : List String → List String
  | [] => []
  | line :: rest =>
    match Text.stripStart? [' ', ' ', ' ', ' '] line.toList with
    | some text => String.ofList text :: indentedLines rest
    | none => []

def exposedModules (text : String) : List String :=
  indentedLines ((Text.splitOn '\n' text).dropWhile (· != "  exposed-modules:")).tail

/-! ## Words of lines -/

section Lines

variable {line : String}

theorem firstWord_eq (word : String) (hline : word.toList ++ [' '] <+: line.toList)
    (hword : MadeOf (· != ' ') word) : firstWord line = word := by
  obtain ⟨rest, hrest⟩ := hline
  have hsplit := @Text.splitOn_eq_cons ' ' line word (String.ofList rest) (by simp [← hrest]) hword
  simp [firstWord, hsplit]

/-- A line that does not begin with the word imports nothing. -/
theorem importedModule?_eq_none (h : firstWord line ≠ "import") : importedModule? line = none := by
  unfold importedModule?
  split
  · rename_i word name rest hsplit
    simp only [firstWord, hsplit, List.headD_cons] at h
    simp [h]
  · rfl

/-- Lines further in begin with a blank. -/
theorem firstWord_rowAt_succ (level : Nat) (text : String) :
    firstWord (Code.rowAt indentStep (level + 1) text) = "" := by
  unfold Code.rowAt
  split
  · rfl
  · refine firstWord_eq "" ?_ (by decide)
    rw [Text.replicate, List.replicate_succ, String.join_cons]
    simp [indentStep, Indent.text]

end Lines

/-! ## Imports from libraries -/

def libraryImports : List Import :=
  [⟨"Data.Kind", "Type"⟩, ⟨"Data.Text", "Text"⟩, ⟨"Data.Time", "Day"⟩, ⟨"Data.Time", "UTCTime"⟩,
   ⟨"Data.UUID", "UUID"⟩, ⟨"Data.Aeson", "Value"⟩, ⟨"Data.Map.Strict", "Map"⟩]

theorem primitiveImports_subset (kind : Primitive) : primitiveImports kind ⊆ libraryImports := by
  cases kind <;> decide

theorem typeImports_subset (type : DataType) : typeImports type ⊆ libraryImports := by
  intro own hown
  obtain ⟨part, -, hown⟩ := List.mem_flatMap.1 hown
  cases part with
  | primitive kind => exact primitiveImports_subset kind hown
  | map value =>
    have hmap : [⟨"Data.Map.Strict", "Map"⟩, ⟨"Data.Text", "Text"⟩] ⊆ libraryImports := by decide
    exact hmap hown
  | array item => simp at hown
  | optional inner => simp at hown
  | named name => simp at hown
  | enum name values => simp at hown

theorem imports_routePart_subset (part : RoutePart) : part.imports ⊆ libraryImports := by
  cases part with
  | literal component => simp [RoutePart.imports]
  | marker text => simp [RoutePart.imports]
  | capture name type => exact typeImports_subset type
  | queryList name item => exact typeImports_subset item
  | value carrier name type required => exact typeImports_subset type
  | cookies => decide
  | body type required => exact typeImports_subset type
  | verb method status result =>
    intro own hown
    obtain hbody | hheaders := List.mem_append.1 hown
    · obtain ⟨type, -, htype⟩ := List.mem_flatMap.1 hbody
      exact typeImports_subset type htype
    · obtain ⟨header, -, hheader⟩ := List.mem_flatMap.1 hheaders
      exact typeImports_subset header.2 hheader

theorem ApiModule.imports_subset (api : ApiModule) : api.imports ⊆ libraryImports := by
  intro own hown
  obtain rfl | hown := List.mem_cons.1 hown
  · decide
  · obtain ⟨endpoint, -, hown⟩ := List.mem_flatMap.1 hown
    obtain ⟨part, -, hown⟩ := List.mem_flatMap.1 hown
    exact imports_routePart_subset part hown

theorem mem_sortedOnce {texts : List String} {text : String} :
    text ∈ sortedOnce texts ↔ text ∈ texts := by
  rw [sortedOnce, List.mem_eraseDups, List.mem_mergeSort]

/-- A line of imports: one module of a library, and names on one line. -/
def IsImportLine (module line : String) : Prop :=
  ∃ names, line = "import " ++ module ++ " (" ++ names ++ ")" ∧ OnOneLine names

namespace IsImportLine

variable {module line : String} (h : IsImportLine module line)
  (hmodule : module ∈ libraryImports.map Import.module)
include h

theorem firstWord : firstWord line = "import" := by
  obtain ⟨names, rfl, -⟩ := h
  exact firstWord_eq "import" (by simp) (by decide)

include hmodule

theorem importedModule? : importedModule? line = some module := by
  obtain ⟨names, rfl, -⟩ := h
  have hword : ∀ own ∈ libraryImports.map Import.module,
      MadeOf (· != ' ') own ∧ own ≠ "qualified" := by decide
  obtain ⟨hblank, hqualified⟩ := hword module hmodule
  have hline := @Text.splitOn_eq_cons ' ' ("import " ++ module ++ " (" ++ names ++ ")") "import"
    (module ++ " (" ++ names ++ ")") (by simp) (by decide)
  have hrest := @Text.splitOn_eq_cons ' ' (module ++ " (" ++ names ++ ")") module
    ("(" ++ names ++ ")") (by simp) hblank
  simp [Haskell.importedModule?, hline, hrest, hqualified]

theorem onOneLine : OnOneLine line := by
  obtain ⟨names, rfl, hnames⟩ := h
  have hword : ∀ own ∈ libraryImports.map Import.module, OnOneLine own := by decide
  simp only [Text.madeOf_append]
  exact ⟨⟨⟨⟨by decide, hword module hmodule⟩, by decide⟩, hnames⟩, by decide⟩

end IsImportLine

section ImportLines

variable {imports : List Import} (himports : imports ⊆ libraryImports)
include himports

theorem mem_modules_of_mem_sortedOnce {module : String}
    (h : module ∈ sortedOnce (imports.map Import.module)) :
    module ∈ libraryImports.map Import.module := by
  obtain ⟨own, hown, rfl⟩ := List.mem_map.1 (mem_sortedOnce.1 h)
  exact List.mem_map_of_mem (himports hown)

/-- What is imported from a module stands on its line. -/
theorem isImportLine_names (module : String) :
    let names := (imports.filter (·.module == module)).map Import.name
    IsImportLine module
      ("import " ++ module ++ " (" ++ Text.join ", " (sortedOnce names) ++ ")") := by
  refine ⟨_, rfl, Text.madeOf_join (by decide) ?_⟩
  intro name hname
  have hword : ∀ own ∈ libraryImports.map Import.name, OnOneLine own := by decide
  obtain ⟨own, hown, rfl⟩ := List.mem_map.1 (mem_sortedOnce.1 hname)
  exact hword _ (List.mem_map_of_mem (himports (List.mem_of_mem_filter hown)))

theorem exists_isImportLine {line : String} (h : line ∈ importLines imports) :
    ∃ module ∈ libraryImports.map Import.module, IsImportLine module line := by
  obtain ⟨module, hmodule, rfl⟩ := List.mem_map.1 h
  exact ⟨module, mem_modules_of_mem_sortedOnce himports hmodule, isImportLine_names himports module⟩

/-- The lines of imports are read as they were meant. -/
theorem filterMap_importLines :
    (importLines imports).filterMap importedModule? = sortedOnce (imports.map Import.module) := by
  rw [importLines, List.filterMap_map]
  refine (List.filterMap_congr ?_).trans (List.filterMap_some)
  intro module hmodule
  rw [Function.comp_apply]
  exact (isImportLine_names himports module).importedModule?
    (mem_modules_of_mem_sortedOnce himports hmodule)

end ImportLines

/-! ## The module of the interface -/

/-- A line that neither imports anything nor opens a declaration. -/
def IsIdle (line : String) : Prop :=
  firstWord line ∉ "import" :: declarationWords

theorem IsIdle.importedModule? {line : String} (h : IsIdle line) : importedModule? line = none :=
  importedModule?_eq_none fun hword => h (hword ▸ List.mem_cons_self)

theorem IsIdle.opensDeclaration {line : String} (h : IsIdle line) :
    opensDeclaration line = false := by
  rw [Haskell.opensDeclaration, Bool.eq_false_iff]
  intro hcontains
  exact h (List.mem_cons_of_mem _ (by simpa using hcontains))

theorem isIdle_of_firstWord (word : String) {line : String} (h : firstWord line = word)
    (hword : word ∉ "import" :: declarationWords) : IsIdle line := by
  rwa [IsIdle, h]

/-- Comments do nothing. -/
theorem isIdle_comment {line : String} (h : ['-', '-', ' '] <+: line.toList) : IsIdle line :=
  isIdle_of_firstWord "--" (firstWord_eq "--" h (by decide)) (by decide)

theorem isIdle_pragma (name : String) : IsIdle (pragma name) := by
  have hstart : "\x7b-#".toList ++ [' '] <+: "\x7b-# LANGUAGE ".toList := by decide
  refine isIdle_of_firstWord "\x7b-#" (firstWord_eq _ ?_ (by decide)) (by decide)
  unfold pragma
  rw [String.append_assoc, String.toList_append]
  exact hstart.trans (List.prefix_append _ _)

theorem onOneLine_pragma {name : String} (h : OnOneLine name) : OnOneLine (pragma name) := by
  unfold pragma
  simp only [Text.madeOf_append]
  exact ⟨⟨by decide, h⟩, by decide⟩

theorem isIdle_rowAt_succ (level : Nat) (text : String) :
    IsIdle (Code.rowAt indentStep (level + 1) text) :=
  isIdle_of_firstWord "" (firstWord_rowAt_succ level text) (by decide)

/-- The names in the head of a module are on one line each. -/
structure ApiModule.HasPlainNames (api : ApiModule) : Prop where
  module : MadeOf Char.isAlphanum api.module
  backend : OnOneLine api.backend
  groups : ∀ group ∈ api.groups, OnOneLine group.typeName

theorem onOneLine_headerComment (context : RenderContext) {what : String} (h : OnOneLine what) :
    ∀ line ∈ headerComment context what, OnOneLine line := by
  simp only [headerComment, List.forall_mem_cons, List.not_mem_nil, false_imp_iff, implies_true,
    Text.madeOf_append, onOneLine_commentText, h, and_true]
  and_intros <;> exact MadeOf.ofList (by decide)

theorem forall_mem_marked {P : String → Prop} {first rest : String} {texts : List String}
    (hfirst : ∀ text ∈ texts, P (first ++ text)) (hrest : ∀ text ∈ texts, P (rest ++ text)) :
    ∀ line ∈ marked first rest texts, P line := by
  cases texts with
  | nil => simp [marked]
  | cons text texts =>
    refine List.forall_mem_cons.2 ⟨hfirst text List.mem_cons_self, ?_⟩
    intro line hline
    obtain ⟨own, hown, rfl⟩ := List.mem_map.1 hline
    exact hrest own (List.mem_cons_of_mem _ hown)

namespace ApiModule

variable (context : RenderContext) (api : ApiModule)

/-- The module up to its imports. -/
def opening : Code :=
  Code.empty
    |>.lines (["DataKinds", "KindSignatures", "RecordWildCards", "TypeOperators"].map pragma)
    |>.blank
    |>.lines (headerComment context "Servant API")
    |>.line ("module " ++ api.module ++ ".API")
    |> writeExports api.exports

def head : Code :=
  let code := (api.opening context).lines (importLines api.imports) |>.line "import Servant"
  if hasTypes context then code.blank |>.line ("import " ++ api.module ++ ".Types") else code

@[simp] theorem level_opening : (api.opening context).level = 0 := by
  simp [opening, writeExports]

/-- Nothing in front of the imports could be taken for one, nor for a declaration. -/
theorem isIdle_of_mem_opening :
    ∀ line ∈ (api.opening context).rows indentStep, IsIdle line := by
  have hblank : IsIdle "" := isIdle_of_firstWord "" (by decide) (by decide)
  have hmark : IsIdle "--" := isIdle_of_firstWord "--" (by decide) (by decide)
  have hmodule : IsIdle ("module " ++ api.module ++ ".API") :=
    isIdle_of_firstWord "module" (firstWord_eq "module" (by simp) (by decide)) (by decide)
  simp only [opening, writeExports, headerComment, Code.rows_blank, Code.rows_line, Code.rows_lines,
    Code.rows_dedent, Code.rows_indent, Code.rows_empty, Code.level_line, Code.level_lines,
    Code.level_blank, Code.level_indent, Code.level_empty, Code.rowAt_zero,
    List.forall_mem_append, List.forall_mem_map, List.forall_mem_cons, List.not_mem_nil,
    false_imp_iff, isIdle_pragma, hblank, hmark, hmodule, isIdle_rowAt_succ, implies_true, and_true,
    true_and]
  exact ⟨isIdle_comment (by simp), isIdle_comment (by simp)⟩

theorem isRows_opening (h : api.HasPlainNames) : (api.opening context).IsRows := by
  have hexports : ∀ name ∈ api.exports, OnOneLine name := by
    intro name hname
    simp only [exports, List.mem_append, List.mem_cons, List.mem_map, List.not_mem_nil,
      or_false] at hname
    obtain ((rfl | rfl) | ⟨group, hgroup, rfl⟩) | rfl | rfl := hname
    · decide
    · decide
    · exact h.groups group hgroup
    · exact Text.madeOf_append.2 ⟨h.backend, by decide⟩
    · decide
  have hmarked : ∀ line ∈ marked "( " ", " api.exports, OnOneLine line :=
    forall_mem_marked (fun name hname => Text.madeOf_append.2 ⟨by decide, hexports name hname⟩)
      fun name hname => Text.madeOf_append.2 ⟨by decide, hexports name hname⟩
  have hmodule := onOneLine_of_isAlphanum h.module
  have hpragmas : ∀ name ∈ ["DataKinds", "KindSignatures", "RecordWildCards", "TypeOperators"],
      OnOneLine (pragma name) := by
    intro name hname
    refine onOneLine_pragma ?_
    revert name
    decide
  have hheader : ∀ line ∈ headerComment context "Servant API", OnOneLine line :=
    onOneLine_headerComment context (by decide)
  simp only [opening, writeExports, Code.isRows_blank, Code.isRows_line, Code.isRows_lines,
    Code.isRows_dedent, Code.isRows_indent, Code.isRows_empty, List.forall_mem_map,
    Text.madeOf_append, hmodule, and_true, true_and]
  exact ⟨⟨⟨⟨hpragmas, hheader⟩, by decide⟩, hmarked⟩, by decide⟩

section Head

variable {api}

theorem isRows_head (h : api.HasPlainNames) : (api.head context).IsRows := by
  have hmodule := onOneLine_of_isAlphanum h.module
  have himports : ∀ line ∈ importLines api.imports, OnOneLine line := by
    intro line hline
    obtain ⟨module, hmodule, himport⟩ := exists_isImportLine api.imports_subset hline
    exact himport.onOneLine hmodule
  have hcode : ((api.opening context).lines (importLines api.imports)
      |>.line "import Servant").IsRows := by
    simp only [Code.isRows_line, Code.isRows_lines]
    exact ⟨⟨isRows_opening context api h, himports⟩, by decide⟩
  unfold head
  dsimp only
  split
  · refine (Code.isRows_line _ _).2 ⟨(Code.isRows_blank _).2 hcode, ?_⟩
    simp only [Text.madeOf_append]
    exact ⟨⟨by decide, hmodule⟩, by decide⟩
  · exact hcode

theorem rows_head (api : ApiModule) : (api.head context).rows indentStep =
    (api.opening context).rows indentStep ++ importLines api.imports ++ ["import Servant"] ++
      if hasTypes context then ["", "import " ++ api.module ++ ".Types"] else [] := by
  unfold head
  dsimp only
  split <;> simp

@[simp] theorem level_head (api : ApiModule) : (api.head context).level = 0 := by
  unfold head
  dsimp only
  split <;> simp

/-- The head of the module opens no declaration. -/
theorem opensDeclaration_of_mem_head (api : ApiModule) :
    ∀ line ∈ (api.head context).rows indentStep, opensDeclaration line = false := by
  have himport : ∀ line, firstWord line = "import" → opensDeclaration line = false := by
    intro line hline
    rw [opensDeclaration, hline]
    decide
  intro line hline
  rw [rows_head] at hline
  simp only [List.mem_append, List.mem_singleton] at hline
  obtain ((hline | hline) | rfl) | hline := hline
  · exact (isIdle_of_mem_opening context api line hline).opensDeclaration
  · obtain ⟨module, -, hmodule⟩ := exists_isImportLine api.imports_subset hline
    exact himport line hmodule.firstWord
  · decide
  · split at hline
    · simp only [List.mem_cons, List.not_mem_nil, or_false] at hline
      obtain rfl | rfl := hline
      · decide
      · exact himport _ (firstWord_eq "import" (by simp) (by decide))
    · simp at hline

/-- The imports of the head are those from libraries and that of the types. -/
theorem filterMap_head (h : api.HasPlainNames) :
    ((api.head context).rows indentStep).filterMap importedModule? =
      sortedOnce (api.imports.map Import.module) ++ ["Servant"] ++
        if hasTypes context then [api.module ++ ".Types"] else [] := by
  have hopening : ((api.opening context).rows indentStep).filterMap importedModule? = [] :=
    List.filterMap_eq_nil_iff.2 fun line hline =>
      (isIdle_of_mem_opening context api line hline).importedModule?
  have htypes : importedModule? ("import " ++ api.module ++ ".Types") =
      some (api.module ++ ".Types") := by
    have hname : MadeOf (· != ' ') (api.module ++ ".Types") :=
      Text.madeOf_append.2 ⟨h.module.avoids (by decide), by decide⟩
    have hqualified : api.module ++ ".Types" ≠ "qualified" := by
      intro heq
      have hdot : '.' ∈ "qualified".toList := by simp [← heq]
      simp at hdot
    have hline := @Text.splitOn_eq_cons ' ' ("import " ++ api.module ++ ".Types") "import"
      (api.module ++ ".Types") (by simp) (by decide)
    simp [importedModule?, hline, Text.splitOn_eq_singleton hname, hqualified]
  have hservant : importedModule? "import Servant" = some "Servant" := by decide
  have hblank : importedModule? "" = none := by decide
  rw [rows_head, List.filterMap_append, List.filterMap_append, List.filterMap_append, hopening,
    filterMap_importLines api.imports_subset, List.nil_append]
  split <;> simp [htypes, hservant, hblank]

end Head

/-! ### The first declaration -/

theorem declaration_continues_writeGroup (code : Code) (group : EndpointGroup) :
    (code.blank.line ("-- | Operations tagged @" ++ commentText group.tag ++ "@.")
      |>.line ("type " ++ group.typeName ++ " =")).Continues (writeGroup code group) :=
  ((Code.Continues.refl _).indent.lines _).dedent

theorem continues_writeGroup (code : Code) (group : EndpointGroup) :
    code.Continues (writeGroup code group) :=
  ((Code.Continues.refl code).blank.line _).line _
    |>.trans (declaration_continues_writeGroup code group)

theorem continues_writeApiType (groups : List EndpointGroup) (code : Code) :
    code.Continues (writeApiType groups code) := by
  unfold writeApiType
  dsimp only
  split
  · exact ((Code.Continues.refl code).blank.line _).line _
  · exact ((((Code.Continues.refl code).blank.line _).line _).indent.lines _).dedent

theorem continues_writeBackend (code : Code) : code.Continues (writeBackend api code) := by
  unfold writeBackend
  dsimp only
  split
  · exact ((Code.Continues.refl code).line _).line _
  · exact (((((Code.Continues.refl code).line _).line _).indent.lines _).line _).dedent

theorem continues_writeServer (code : Code) : code.Continues (writeServer api code) := by
  unfold writeServer
  dsimp only
  split
  · exact (((Code.Continues.refl code).line _).line _).line _
  · exact (((((Code.Continues.refl code).line _).line _).line _).indent.lines _).dedent

/-- Behind the types of the interface the module is only continued. -/
theorem continues_code {first : Code}
    (h : first.Continues
      (writeApiType api.groups (api.groups.foldl writeGroup (api.head context)))) :
    first.Continues (api.code context) := by
  have hbackend := h.blank.line "api :: Proxy API" |>.line "api = Proxy" |>.blank
    |>.trans (continues_writeBackend api _)
  exact hbackend.blank.trans (continues_writeServer api _)

/-- The head of the module is followed by a comment and the declaration of a type. -/
theorem exists_declaration (h : api.HasPlainNames) : ∃ remark name,
    OnOneLine remark ∧ OnOneLine name ∧
      ((api.head context).blank.line ("-- | " ++ remark) |>.line ("type " ++ name)).Continues
        (api.code context) := by
  cases hgroups : api.groups with
  | nil =>
    refine ⟨"The complete API.", "API = EmptyAPI", by decide, by decide, continues_code _ _ ?_⟩
    rw [hgroups]
    exact Code.Continues.refl _
  | cons group rest =>
    have hgroup := h.groups group (hgroups ▸ List.mem_cons_self)
    refine ⟨"Operations tagged @" ++ commentText group.tag ++ "@.", group.typeName ++ " =",
      ?_, Text.madeOf_append.2 ⟨hgroup, by decide⟩, continues_code _ _ ?_⟩
    · simp only [Text.madeOf_append]
      exact ⟨⟨by decide, onOneLine_commentText _⟩, by decide⟩
    · have hremark : "-- | " ++ ("Operations tagged @" ++ commentText group.tag ++ "@.") =
          "-- | Operations tagged @" ++ commentText group.tag ++ "@." := by
        simp [← String.toList_inj]
      have hname : "type " ++ (group.typeName ++ " =") = "type " ++ group.typeName ++ " =" := by
        simp [← String.toList_inj]
      rw [hgroups, hremark, hname]
      exact (Code.Continues.foldl continues_writeGroup
        (declaration_continues_writeGroup _ group) rest).trans (continues_writeApiType _ _)

/-- Behind the head of the module stands a comment and then the declaration of a type. -/
theorem exists_splitOn_text_code (h : api.HasPlainNames) :
    ∃ remark name others, Text.splitOn '\n' ((api.code context).text indentStep) =
      (api.head context).rows indentStep ++ "" :: ("-- | " ++ remark) ::
        ("type " ++ name) :: others := by
  obtain ⟨remark, name, hremark, hname, hcontinues⟩ := exists_declaration context api h
  have hrows : ((api.head context).blank.line ("-- | " ++ remark)
      |>.line ("type " ++ name)).IsRows := by
    simp only [Code.isRows_line, Code.isRows_blank, Text.madeOf_append]
    exact ⟨⟨isRows_head context h, by decide, hremark⟩, by decide, hname⟩
  obtain ⟨others, hsplit⟩ := hcontinues.exists_splitOn_text hrows indentStep
  exact ⟨remark, name, others, by simpa using hsplit⟩

/-- What a reader of the module takes for its imports. -/
theorem importedModules_code (h : api.HasPlainNames) :
    importedModules ((api.code context).text indentStep) =
      sortedOnce (api.imports.map Import.module) ++ ["Servant"] ++
        if hasTypes context then [api.module ++ ".Types"] else [] := by
  obtain ⟨remark, name, others, hlines⟩ := exists_splitOn_text_code context api h
  have hblank : IsIdle "" := isIdle_of_firstWord "" (by decide) (by decide)
  have hcomment : IsIdle ("-- | " ++ remark) := isIdle_comment (by simp)
  have hdeclaration : opensDeclaration ("type " ++ name) = true := by
    rw [opensDeclaration, firstWord_eq "type" (by simp) (by decide)]
    decide
  rw [importedModules, hlines, List.takeWhile_append_of_pos, List.filterMap_append,
    filterMap_head context h]
  · simp [hblank.opensDeclaration, hcomment.opensDeclaration, hdeclaration, hblank.importedModule?,
      hcomment.importedModule?]
  · simpa using opensDeclaration_of_mem_head context api

end ApiModule

/-- No module of a library has the name of the module of types. -/
theorem types_notMem_libraryImports (name : String) :
    name ++ ".Types" ∉ "Servant" :: libraryImports.map Import.module := by
  have hends : ∀ own ∈ "Servant" :: libraryImports.map Import.module,
      ¬ ".Types".toList <:+ own.toList := by decide
  exact fun hmem => hends _ hmem (by simp)

/-- The module of the interface imports the types exactly when there are any. -/
theorem ApiModule.types_mem_importedModules_iff (context : RenderContext) {api : ApiModule}
    (h : api.HasPlainNames) :
    api.module ++ ".Types" ∈ importedModules ((api.code context).text indentStep) ↔
      hasTypes context = true := by
  have hlibrary : api.module ++ ".Types" ∉
      sortedOnce (api.imports.map Import.module) ++ ["Servant"] := by
    intro hmem
    refine types_notMem_libraryImports api.module ?_
    obtain hmem | hmem := List.mem_append.1 hmem
    · exact List.mem_cons_of_mem _ (mem_modules_of_mem_sortedOnce api.imports_subset hmem)
    · exact List.mem_cons.2 (.inl (List.mem_singleton.1 hmem))
  rw [importedModules_code context api h, List.mem_append, or_iff_right hlibrary]
  split <;> simp_all

/-! ## The package description -/

theorem indentedLines_append (text : String) (rest : List String) :
    indentedLines (("    " ++ text) :: rest) = text :: indentedLines rest := by
  simp [indentedLines, Text.stripStart?]

def packageOpening (context : RenderContext) : Code :=
  Code.empty
    |>.line "cabal-version:      2.4"
    |>.line ("name:               " ++ packageName context.packageName)
    |>.line ("version:            " ++ packageVersion context.api.info.version)
    |>.line ("synopsis:           Servant API for " ++ commentText context.api.info.title)
    |>.line "build-type:         Simple"
    |>.blank
    |>.line "library"
    |>.indent
    |>.line "hs-source-dirs:   lib"

/-- The names of the exposed modules. -/
def packageModules (context : RenderContext) : List String :=
  (moduleName context ++ ".API") ::
    if hasTypes context then [moduleName context ++ ".Types"] else []

theorem isRows_packageOpening (context : RenderContext) : (packageOpening context).IsRows := by
  have hname := onOneLine_packageName context.packageName
  have hversion := onOneLine_packageVersion context.api.info.version
  have htitle := onOneLine_commentText context.api.info.title
  simp only [packageOpening, Code.isRows_line, Code.isRows_blank, Code.isRows_indent,
    Code.isRows_empty, Text.madeOf_append, hname, hversion, htitle, and_true, true_and]
  and_intros <;> exact MadeOf.ofList (by decide)

theorem append_ne {start word : String} (h : ¬ start.toList <+: word.toList) (text : String) :
    start ++ text ≠ word := by
  rintro rfl
  exact h (by simp)

/-- The heading of the exposed modules comes behind all of the opening. -/
theorem bne_of_mem_packageOpening (context : RenderContext) :
    ∀ row ∈ (packageOpening context).rows indentStep, (row != "  exposed-modules:") = true := by
  have hname := @append_ne "name:               " "  exposed-modules:" (by decide)
  have hversion := @append_ne "version:            " "  exposed-modules:" (by decide)
  have htitle := @append_ne "synopsis:           Servant API for " "  exposed-modules:" (by decide)
  simp only [packageOpening, Code.rows_line, Code.rows_blank, Code.rows_indent, Code.rows_empty,
    Code.level_line, Code.level_blank, Code.level_indent, Code.level_empty, Code.rowAt_zero,
    List.forall_mem_append, List.forall_mem_cons, bne_iff_ne, hname, hversion, htitle, ne_eq,
    not_false_eq_true, true_and, List.not_mem_nil, false_imp_iff, implies_true, and_true]
  refine ⟨⟨⟨⟨by simp, by simp⟩, by simp⟩, by simp⟩, ?_⟩
  simp [Code.rowAt, indentStep, Indent.text, Text.replicate, ← String.toList_inj]

theorem map_rowAt_packageModules (context : RenderContext) :
    (packageModules context).map (Code.rowAt indentStep (1 + 1)) =
      (packageModules context).map ("    " ++ ·) := by
  refine List.map_congr_left fun name hname => ?_
  have hne : name ≠ "" := by
    rintro rfl
    unfold packageModules at hname
    split at hname <;> simp at hname
  rw [Code.rowAt, if_neg hne]
  rfl

theorem continues_packageDescription (context : RenderContext) :
    ((packageOpening context).line "exposed-modules:" |>.indent
      |>.lines (packageModules context) |>.dedent |>.line "build-depends:").Continues
        (packageDescription context) := by
  have hmodules : ((packageOpening context).line "exposed-modules:" |>.indent
      |>.lines (packageModules context) |>.dedent |>.line "build-depends:") =
      ((packageOpening context).line "exposed-modules:" |>.indent
        |>.line (moduleName context ++ ".API")
        |>.lines (if hasTypes context then [moduleName context ++ ".Types"] else [])
        |>.dedent |>.line "build-depends:") := rfl
  rw [hmodules]
  exact ((((Code.Continues.refl _).indent.lines _).dedent).line _).line _

/-- The modules that the package description lists. -/
theorem exposedModules_packageDescription {context : RenderContext}
    (h : context.target.convention = convention) :
    exposedModules ((packageDescription context).text indentStep) = packageModules context := by
  have hmodule := onOneLine_of_isAlphanum (madeOf_moduleName h)
  have hrows : ((packageOpening context).line "exposed-modules:" |>.indent
      |>.lines (packageModules context) |>.dedent |>.line "build-depends:").IsRows := by
    simp only [Code.isRows_line, Code.isRows_lines, Code.isRows_indent, Code.isRows_dedent]
    refine ⟨⟨⟨isRows_packageOpening context, by decide⟩, ?_⟩, by decide⟩
    refine List.forall_mem_cons.2 ⟨Text.madeOf_append.2 ⟨hmodule, by decide⟩, ?_⟩
    split
    · exact List.forall_mem_singleton.2 (Text.madeOf_append.2 ⟨hmodule, by decide⟩)
    · simp
  obtain ⟨others, hsplit⟩ :=
    (continues_packageDescription context).exists_splitOn_text hrows indentStep
  have hlines : Text.splitOn '\n' ((packageDescription context).text indentStep) =
      (packageOpening context).rows indentStep ++ "  exposed-modules:" ::
        ((packageModules context).map ("    " ++ ·) ++ "  build-depends:" :: others) := by
    have hlevel : (packageOpening context).level = 1 := rfl
    have hheading : Code.rowAt indentStep 1 "exposed-modules:" = "  exposed-modules:" := by decide
    have hend : Code.rowAt indentStep 1 "build-depends:" = "  build-depends:" := by decide
    rw [hsplit]
    simp only [Code.rows_line, Code.rows_lines, Code.rows_indent, Code.rows_dedent, Code.level_line,
      Code.level_lines, Code.level_indent, Code.level_dedent, hlevel, hheading, hend,
      Nat.add_one_sub_one, map_rowAt_packageModules, List.append_assoc, List.cons_append,
      List.nil_append]
  rw [exposedModules, hlines, List.dropWhile_append_of_pos (bne_of_mem_packageOpening context),
    List.dropWhile_cons_of_neg (by simp), List.tail_cons]
  induction packageModules context with
  | nil => rfl
  | cons name names ih => rw [List.map_cons, List.cons_append, indentedLines_append, ih]

end ServantGen.Haskell
