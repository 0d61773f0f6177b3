import ServantGen.Proofs.Haskell.Layout

/-!
# The layout of the module of types

Behind the head of the module stand the layouts of its declarations, one after another, so every
line of them is in its place. A reader finds these lines in the file where no text of a declaration
goes over the end of a line. Names that are handed out go on from names of the interface, types are
made of such names, and comments are cut at the ends of lines, so this holds wherever the names of
types are on one line.
-/

namespace ServantGen.Haskell

open Text (OnOneLine)

/-! ## Names on one line -/

structure Declaration.OnLines (declaration : Declaration) : Prop where
  name : OnOneLine declaration.name
  names : ∀ entry ∈ declaration.body.names, OnOneLine entry.2
  types : ∀ type ∈ declaration.body.types, OnOneLine (typeText type)

def AllOnOneLine (lines : List LayoutLine) : Prop :=
  ∀ line ∈ lines, OnOneLine line.text

section OneLine

variable {role : LineRole} {text : String} {texts : List String} {lines others : List LayoutLine}
  {line : LayoutLine}

@[simp] theorem allOnOneLine_nil : AllOnOneLine [] := by
  simp [AllOnOneLine]

@[simp] theorem allOnOneLine_cons :
    AllOnOneLine (line :: lines) ↔ OnOneLine line.text ∧ AllOnOneLine lines :=
  List.forall_mem_cons

@[simp] theorem allOnOneLine_append :
    AllOnOneLine (lines ++ others) ↔ AllOnOneLine lines ∧ AllOnOneLine others :=
  List.forall_mem_append

@[simp] theorem allOnOneLine_linesAs :
    AllOnOneLine (linesAs role texts) ↔ ∀ text ∈ texts, OnOneLine text :=
  List.forall_mem_map

@[simp] theorem allOnOneLine_under :
    AllOnOneLine (under role text lines) ↔ OnOneLine text ∧ AllOnOneLine lines :=
  List.forall_mem_cons.trans (and_congr_right' List.forall_mem_map)

@[simp] theorem allOnOneLine_apart : AllOnOneLine (apart lines) ↔ AllOnOneLine lines := by
  simp [apart, LayoutLine.blank, Text.MadeOf]

theorem allOnOneLine_commentLayout {mark : String} (hmark : mark ∈ commentMarks)
    (text : Option String) : AllOnOneLine (commentLayout role mark text) := by
  cases text with
  | none => exact allOnOneLine_nil
  | some text =>
    exact allOnOneLine_linesAs.2 fun line hline =>
      (commentLines_silent hmark (by decide) text line hline).1

theorem Selector.allOnOneLine_layout {lead : String} {selector : Selector} (hlead : OnOneLine lead)
    (hname : OnOneLine selector.name) (htype : OnOneLine (typeText selector.type)) :
    AllOnOneLine (selector.layout lead) := by
  have hcomment := @allOnOneLine_commentLayout .fieldDocumentation "-- ^" (by decide)
    selector.description
  simp +decide [layout, hlead, hname, htype, hcomment]

theorem allOnOneLine_selectorsLayout {selectors : List Selector}
    (h : ∀ selector ∈ selectors, OnOneLine selector.name ∧ OnOneLine (typeText selector.type)) :
    AllOnOneLine (selectorsLayout selectors) := by
  cases selectors with
  | nil => exact allOnOneLine_nil
  | cons first rest =>
    obtain ⟨⟨hname, htype⟩, hrest⟩ := List.forall_mem_cons.1 h
    refine allOnOneLine_append.2 ⟨Selector.allOnOneLine_layout (by decide) hname htype, ?_⟩
    exact List.forall_mem_flatMap.2 fun selector hmem =>
      Selector.allOnOneLine_layout (by decide) (hrest selector hmem).1 (hrest selector hmem).2

section Name

variable {name : String} (hname : OnOneLine name)
include hname

theorem allOnOneLine_instanceLayout {className line : String} (hclass : OnOneLine className)
    (hline : OnOneLine line) : AllOnOneLine (instanceLayout className name line) := by
  simp +decide [instanceLayout, instanceHead, hname, hclass, hline]

theorem allOnOneLine_caseInstanceLayout {className line : String} {alternatives : List String}
    (hclass : OnOneLine className) (hline : OnOneLine line)
    (halternatives : ∀ own ∈ alternatives, OnOneLine own) :
    AllOnOneLine (caseInstanceLayout className name line alternatives) := by
  simpa +decide [caseInstanceLayout, instanceHead, hname, hclass, hline] using halternatives

theorem allOnOneLine_unitLayout : AllOnOneLine (unitLayout name) := by
  simp +decide [unitLayout, allOnOneLine_instanceLayout, hname, onOneLine_literal]

theorem allOnOneLine_recordLayout {selectors : List Selector} {options label : String}
    (hselectors : ∀ selector ∈ selectors,
      OnOneLine selector.name ∧ OnOneLine (typeText selector.type))
    (hoptions : OnOneLine options) (hlabel : OnOneLine label) :
    AllOnOneLine (recordLayout name selectors options label) := by
  have hfields := allOnOneLine_selectorsLayout hselectors
  have hlabels : ∀ line ∈ labelLines (selectors.map fun selector =>
      (selector.name, selector.property)), OnOneLine line :=
    List.forall_mem_map.2 fun entry _ => by simp +decide [onOneLine_literal]
  have hlabelled : AllOnOneLine (labelLayout label selectors) := by
    simpa +decide [labelLayout, hlabel] using hlabels
  simp +decide [recordLayout, optionsLayout, allOnOneLine_instanceLayout, hname, hfields, hoptions,
    hlabel, hlabelled]

/-- The type of an enumeration or a union: its constructors, and the classes that are derived. -/
theorem allOnOneLine_sumType {texts : List String} {derived : String}
    (htexts : ∀ text ∈ texts, OnOneLine text) (hderived : OnOneLine derived) :
    AllOnOneLine (under .typeHead ("data " ++ name)
      (linesAs .constructor (constructorLines texts) ++ [⟨.derived, 0, derived⟩])) := by
  have hconstructors : ∀ line ∈ constructorLines texts, OnOneLine line := by
    rw [constructorLines_eq_marked]
    refine forall_mem_marked ?_ ?_ <;>
      exact fun text htext => by simp +decide [htexts text htext]
  simpa +decide [hname, hderived] using hconstructors

theorem allOnOneLine_enumLayout (title : String) {constructors : List (String × String)}
    (h : ∀ entry ∈ constructors, OnOneLine entry.1) :
    AllOnOneLine (enumLayout name title constructors) := by
  unfold enumLayout
  simp only [allOnOneLine_append, allOnOneLine_apart]
  refine ⟨⟨⟨⟨?type, ?shown⟩, ?read⟩, ?toJson⟩, ?fromJson⟩
  case type => exact allOnOneLine_sumType hname (List.forall_mem_map.2 h) (by decide)
  case shown =>
    exact allOnOneLine_caseInstanceLayout hname (by decide) (by decide)
      (List.forall_mem_map.2 fun entry hentry => by
        simp +decide [h entry hentry, onOneLine_literal])
  case read =>
    refine allOnOneLine_caseInstanceLayout hname (by decide) (by decide)
      (List.forall_mem_append.2 ⟨List.forall_mem_map.2 fun entry hentry => ?_, ?_⟩)
    · simp +decide [h entry hentry, onOneLine_literal]
    · simp +decide [onOneLine_literal]
  case toJson => exact allOnOneLine_instanceLayout hname (by decide) (by decide)
  case fromJson =>
    exact allOnOneLine_instanceLayout hname (by decide) (by simp +decide [onOneLine_literal])

theorem allOnOneLine_unionReaderLayout {constructors : List (String × String)}
    (h : ∀ entry ∈ constructors, OnOneLine entry.1) (discriminator : Option Discriminator) :
    AllOnOneLine (unionReaderLayout name constructors discriminator) := by
  cases discriminator with
  | none =>
    have hattempts : ∀ line ∈ attemptLines constructors, OnOneLine line :=
      forall_mem_attemptLines (fun entry hentry => by simp +decide [h entry hentry])
        fun attempt hattempt => by simp +decide [hattempt]
    exact allOnOneLine_under.2 ⟨by decide, allOnOneLine_linesAs.2 hattempts⟩
  | some discriminator =>
    have htags : ∀ line ∈ tagLines constructors discriminator.mapping, OnOneLine line := by
      rw [tagLines_eq_map]
      refine List.forall_mem_map.2 fun entry hentry => ?_
      obtain ⟨model, -, hconstructor⟩ := exists_of_mem_selectedTags hentry
      simp +decide [h _ hconstructor, onOneLine_literal]
    simpa +decide [unionReaderLayout, hname, onOneLine_literal] using htags

theorem allOnOneLine_unionLayout {constructors : List (String × String)}
    (h : ∀ entry ∈ constructors, OnOneLine entry.1 ∧ OnOneLine entry.2)
    (discriminator : Option Discriminator) :
    AllOnOneLine (unionLayout name constructors discriminator) := by
  unfold unionLayout
  simp only [allOnOneLine_append, allOnOneLine_apart]
  refine ⟨⟨?type, ?shown⟩, ?read⟩
  case type =>
    exact allOnOneLine_sumType hname
      (List.forall_mem_map.2 fun entry hentry => by simp +decide [h entry hentry]) (by decide)
  case shown =>
    exact allOnOneLine_caseInstanceLayout hname (by decide) (by decide)
      (List.forall_mem_map.2 fun entry hentry => by simp +decide [h entry hentry])
  case read =>
    refine allOnOneLine_under.2 ⟨by simp +decide [instanceHead, hname], ?_⟩
    exact allOnOneLine_unionReaderLayout hname (fun entry hentry => (h entry hentry).1)
      discriminator

theorem allOnOneLine_newtypeLayout {type : DataType} (h : OnOneLine (typeText type)) :
    AllOnOneLine (newtypeLayout name type) := by
  have hatom : OnOneLine (atomText type) := onOneLine_asArgument h
  unfold newtypeLayout
  split <;> simp +decide [allOnOneLine_instanceLayout, hname, hatom]

end Name

/-- Names and types on one line are written on one line. -/
theorem Declaration.OnLines.layout {declaration : Declaration} (h : declaration.OnLines) :
    AllOnOneLine declaration.layout := by
  obtain ⟨name, description, body⟩ := declaration
  obtain ⟨hname, hnames, htypes⟩ := h
  refine allOnOneLine_append.2 ⟨allOnOneLine_commentLayout (by decide) description, ?_⟩
  cases body with
  | unit => exact allOnOneLine_unitLayout hname
  | record selectors options label =>
    refine allOnOneLine_recordLayout hname (fun selector hselector => ⟨?_, ?_⟩)
      (hnames (.value, options) (by simp [DeclarationBody.names]))
      (hnames (.value, label) (by simp [DeclarationBody.names]))
    · exact hnames (.value, selector.name)
        (List.mem_append_left _ (List.mem_map.2 ⟨_, hselector, rfl⟩))
    · exact htypes _ (List.mem_map_of_mem hselector)
  | enum title constructors =>
    exact allOnOneLine_enumLayout hname title fun entry hentry =>
      hnames (.constructor, entry.1) (List.mem_map.2 ⟨entry, hentry, rfl⟩)
  | union constructors discriminator =>
    refine allOnOneLine_unionLayout hname (fun entry hentry => ⟨?_, ?_⟩) discriminator
    · exact hnames (.constructor, entry.1) (List.mem_map.2 ⟨entry, hentry, rfl⟩)
    · exact htypes (.named entry.2) (List.mem_map.2 ⟨entry, hentry, rfl⟩)
  | newtype type => exact allOnOneLine_newtypeLayout hname (htypes type List.mem_cons_self)

end OneLine

/-! ### Names of an interface -/

section Interface

variable {context : RenderContext}

/-- Where references were checked, what is referred to is a model. -/
theorem mem_typeNames_of_placedReferences (h : checkModels context = .ok ()) {model : Model}
    (hmodel : model ∈ context.api.models.models) {name place : String}
    (hplaced : (name, place) ∈ placedReferences model) : name ∈ typeNames context := by
  have hfound := of_forM_eq_ok h (name, place) (List.mem_flatMap.2 ⟨model, hmodel, hplaced⟩)
  refine List.mem_append_left _ (ModelTable.contains_iff.1 ?_)
  unfold ModelTable.contains
  cases hget : context.api.models.get? name with
  | some own => rfl
  | none => simp [RenderContext.resolveModel, hget, bind, Except.bind] at hfound

theorem exists_mem_placedReferences {model : Model} {type : DataType} (htype : type ∈ model.types)
    {name : String} (hname : name ∈ type.models) :
    ∃ place, (name, place) ∈ placedReferences model := by
  unfold Model.types at htype
  unfold placedReferences
  generalize model.shape = shape at htype ⊢
  cases shape with
  | record fields =>
    obtain ⟨field, hfield, rfl⟩ := List.mem_map.1 htype
    exact ⟨_, List.mem_flatMap.2 ⟨field, hfield, List.mem_map_of_mem hname⟩⟩
  | «alias» own =>
    obtain rfl := List.mem_singleton.1 htype
    exact ⟨_, List.mem_map_of_mem hname⟩
  | enum values => simp at htype
  | union variants => simp at htype

/-- An enumeration inside the type of a model is a declared type. -/
theorem mem_typeNames_of_mem_enums {model : Model} (hmodel : model ∈ context.api.models.models)
    {type : DataType} (htype : type ∈ model.types) {entry : String × List String}
    (hentry : entry ∈ type.enums) : entry.1 ∈ typeNames context := by
  have hall : type ∈ context.api.types :=
    List.mem_append_left _ (List.mem_flatMap.2 ⟨model, hmodel, htype⟩)
  obtain ⟨inline, hinline, hname⟩ := Api.exists_mem_inlineEnums hall hentry
  exact List.mem_append_right _ (List.mem_map.2 ⟨inline, hinline, hname⟩)

theorem onOneLine_lowerFirst {name : String} (h : OnOneLine name) :
    OnOneLine (lowerFirst name) := by
  have hlower : ∀ c : Char, c ≠ '\n' → c.toLower ≠ '\n' := by
    intro c hc heq
    by_cases hupper : c.isUpper = true
    · have hown := Text.isLower_toLower hupper
      rw [heq] at hown
      exact absurd hown (by decide)
    · exact hc ((Text.toLower_of_not_isUpper hupper).symm.trans heq)
  unfold lowerFirst
  split
  · decide
  · rename_i c rest hcs
    rw [OnOneLine, Text.MadeOf, hcs, List.forall_mem_cons] at h
    rw [OnOneLine, Text.madeOf_ofList, List.forall_mem_cons]
    exact ⟨by simpa using hlower c (by simpa using h.1), h.2⟩

/-- The types of models and the names of variants are on one line where all declared names are. -/
theorem onOneLine_of_mem_declaredTypes (hcheck : checkModels context = .ok ())
    (hnames : ∀ name ∈ typeNames context, OnOneLine name) {model : Model}
    (hmodel : model ∈ declaredTypes context.api) :
    (∀ type ∈ model.types, OnOneLine (typeText type)) ∧
      ∀ variants, model.shape = .union variants → ∀ name ∈ variants, OnOneLine name := by
  obtain hmodel | hinline := List.mem_append.1 hmodel
  · constructor
    · intro type htype
      refine onOneLine_typeText_of_names (fun name hname => ?_) fun entry hentry =>
        hnames _ (mem_typeNames_of_mem_enums hmodel htype hentry)
      obtain ⟨place, hplaced⟩ := exists_mem_placedReferences htype hname
      exact hnames name (mem_typeNames_of_placedReferences hcheck hmodel hplaced)
    · intro variants hshape name hname
      have hplaced : (name, model.name) ∈ placedReferences model := by
        unfold placedReferences
        rw [hshape]
        exact List.mem_map_of_mem hname
      exact hnames name (mem_typeNames_of_placedReferences hcheck hmodel hplaced)
  · obtain ⟨inline, -, rfl⟩ := List.mem_map.1 hinline
    exact ⟨by simp [InlineEnum.asModel, Model.types], by simp [InlineEnum.asModel]⟩

theorem onOneLine_of_mem_askedNames (hconvention : context.target.convention = convention)
    {model : Model} (hname : OnOneLine model.name)
    (hvariants : ∀ variants, model.shape = .union variants → ∀ name ∈ variants, OnOneLine name) :
    ∀ entry ∈ askedNames context model, OnOneLine entry.2 := by
  have hlower := onOneLine_lowerFirst hname
  unfold askedNames
  split
  · unfold recordNames
    split
    · simp
    · refine List.forall_mem_append.2 ⟨List.forall_mem_map.2 fun field _ => ?_, ?_⟩
      · exact Text.madeOf_append.2 ⟨hlower, onOneLine_of_isAlphanum (Text.madeOf_pascal _)⟩
      · simp +decide [hlower]
  · refine List.forall_mem_map.2 fun value _ => Text.madeOf_append.2 ⟨hname, ?_⟩
    rw [hconvention]
    exact onOneLine_of_isAlphanum (madeOf_base _ _)
  · rename_i variants hshape
    exact List.forall_mem_map.2 fun variant hvariant =>
      Text.madeOf_append.2 ⟨hname, hvariants variants hshape variant hvariant⟩
  · simp

theorem NamedAfter.onOneLine {asked given : String} (h : NamedAfter asked given)
    (hasked : OnOneLine asked) : OnOneLine given := by
  obtain ⟨more, rfl, hmore⟩ := h.exists_append
  exact Text.madeOf_append.2 ⟨hasked, hmore.avoids (by decide)⟩

/-- What is declared for a type is on lines of its own. -/
theorem DeclaresType.onLines {model : Model} {declaration : Declaration}
    (h : DeclaresType context model declaration) (hcheck : checkModels context = .ok ())
    (hconvention : context.target.convention = convention)
    (hnames : ∀ name ∈ typeNames context, OnOneLine name)
    (hmodel : model ∈ declaredTypes context.api) : declaration.OnLines := by
  obtain ⟨htypes, hvariants⟩ := onOneLine_of_mem_declaredTypes hcheck hnames hmodel
  have hname : OnOneLine model.name :=
    hnames _ (map_name_declaredTypes context ▸ List.mem_map_of_mem hmodel)
  refine ⟨h.name ▸ hname, fun entry hentry => ?_, ?_⟩
  · obtain ⟨asked, hasked, -, hnamed⟩ := Outcomes.exists_of_mem_of_forall₂ h.names hentry
    exact hnamed.onOneLine (onOneLine_of_mem_askedNames hconvention hname hvariants asked hasked)
  · exact h.body.forall_types (by decide) (by decide) htypes hvariants

end Interface

/-! ## The module -/

/-- Where every line is ended, the text is the rows with their ends. -/
theorem text_eq_join_rows {code : Code} (h : ∀ piece ∈ code.pieces, EndsLine piece)
    (indent : Indent) : code.text indent = String.join ((code.rows indent).map (· ++ "\n")) := by
  rw [Code.text, Code.rows, List.map_map]
  refine congrArg String.join (List.map_congr_left fun piece hpiece => ?_)
  cases piece with
  | raw text => exact (h _ hpiece).elim
  | line level text => rfl
  | blank => rfl

theorem LayoutLine.row_piece (line : LayoutLine) : (line.piece 0).row indentStep = line.row := by
  unfold piece row Code.rowAt
  split
  · rfl
  · rw [Piece.row, Nat.zero_add]

theorem LayoutLine.isRow_piece {line : LayoutLine} (h : OnOneLine line.text) (level : Nat) :
    (line.piece level).IsRow := by
  unfold piece
  split
  · trivial
  · exact h

namespace TypesModule

variable (context : RenderContext) (types : TypesModule)

/-- The rows of the module: those of its head, and those of its declarations. -/
def rows : List String :=
  (types.head context).rows indentStep ++ types.layout.map LayoutLine.row

theorem laysOut_code : LaysOut (types.head context) (types.code context) types.layout :=
  .foldl (fun declaration code => .behindBlank (.write declaration code.blank)) _ _

theorem rows_code : (types.code context).rows indentStep = types.rows context := by
  rw [Code.rows, (types.laysOut_code context).pieces, types.level_head context, List.map_append,
    List.map_map]
  exact congrArg _ (List.map_congr_left fun line _ => line.row_piece)

theorem text_code : (types.code context).text indentStep =
    String.join ((types.rows context).map (· ++ "\n")) := by
  rw [text_eq_join_rows (types.sameButComments_code context).ended, rows_code]

variable {context types}

theorem isRows_head (hmodule : OnOneLine types.module)
    (hnames : ∀ declaration ∈ types.declarations, OnOneLine declaration.name) :
    (types.head context).IsRows := by
  have hheader : ∀ line ∈ headerComment context "Types", OnOneLine line :=
    onOneLine_headerComment context (by decide)
  have hexports : ∀ line ∈ marked "( " ", " types.exports, OnOneLine line := by
    refine forall_mem_marked ?_ ?_ <;>
      exact List.forall_mem_map.2 fun declaration hmem => by
        simp +decide [hnames declaration hmem]
  have himports := (readsAs_importLines types.imports_subset).2
  simp +decide only [head, writeExports, Code.isRows_line, Code.isRows_lines, Code.isRows_blank,
    Code.isRows_indent, Code.isRows_dedent, Code.isRows_empty, Text.madeOf_append, hmodule,
    and_true, true_and]
  exact ⟨⟨hheader, hexports⟩, himports⟩

/-- Declarations on lines of their own make a module of lines. -/
theorem isRows_code (hmodule : OnOneLine types.module)
    (h : ∀ declaration ∈ types.declarations, declaration.OnLines) :
    (types.code context).IsRows := by
  have hhead := @isRows_head context types hmodule fun declaration hmem => (h declaration hmem).name
  have hlayout : AllOnOneLine types.layout := List.forall_mem_flatMap.2 fun declaration hmem =>
    allOnOneLine_apart.2 (h declaration hmem).layout
  rw [Code.IsRows, (types.laysOut_code context).pieces]
  exact List.forall_mem_append.2 ⟨hhead, List.forall_mem_map.2 fun line hline =>
    LayoutLine.isRow_piece (hlayout line hline) _⟩

/-- A file that is the module of types of an interface, with every line of it in its place. -/
structure IsLaidOut (context : RenderContext) (types : TypesModule) (content : String) : Prop where
  /-- There is a declaration for each model, then for each enumeration inside a type. -/
  declares : List.Forall₂ (DeclaresType context) (declaredTypes context.api) types.declarations
  /-- The file is the rows of its head and the rows of its declarations, each with its end. -/
  written : content = String.join ((types.rows context).map (· ++ "\n"))
  inPlace : ∀ line ∈ types.layout, line.InPlace
  /-- A reader sees these rows as the lines of the file, where the names of types are on one line
  each. -/
  read : context.target.convention = convention →
    (∀ name ∈ typeNames context, OnOneLine name) →
    Text.splitOn '\n' content = types.rows context ++ [""]

theorem declares_ofContext (context : RenderContext) :
    List.Forall₂ (DeclaresType context) (declaredTypes context.api)
      (ofContext context).declarations := by
  have hall := @HandsOut.mapM _ _ (declaredTypes context.api) _ _ _ _
    (modelDeclaration_hands context) ⟨scopeOf (typeNames context), .empty, []⟩
  rw [← declarations_eq_mapM] at hall
  obtain ⟨given, -, hdeclares, -⟩ := hall
  exact hdeclares

theorem isLaidOut_text_code (h : checkModels context = .ok ()) :
    (ofContext context).IsLaidOut context (((ofContext context).code context).text indentStep) where
  declares := declares_ofContext context
  written := (ofContext context).text_code context
  inPlace := (ofContext context).inPlace_layout
  read := by
    intro hconvention hnames
    have hmodule : OnOneLine (ofContext context).module :=
      onOneLine_of_isAlphanum (madeOf_moduleName hconvention)
    have hdeclarations : ∀ declaration ∈ (ofContext context).declarations, declaration.OnLines := by
      intro declaration hmem
      obtain ⟨model, hmodel, hdeclares⟩ :=
        Outcomes.exists_of_mem_of_forall₂ (declares_ofContext context) hmem
      exact hdeclares.onLines h hconvention hnames hmodel
    rw [Code.splitOn_text (isRows_code hmodule hdeclarations), rows_code]

end TypesModule

/-- A file of the template is the text of the module. -/
theorem exists_typesModule_of_render {context : RenderContext} {scope : RenderScope}
    {content : String} {notes : List RenderNote}
    (h : typesTemplate.render context scope = .ok (.file content notes)) :
    ∃ types, typesModule context = .ok types ∧ content = (types.code context).text indentStep := by
  change (if hasTypes context then _ else _ : Except RenderError Rendered) = _ at h
  split at h
  · cases htypes : typesModule context with
    | error error => simp [htypes, bind, Except.bind] at h
    | ok types =>
      rw [htypes] at h
      obtain ⟨rfl, -⟩ := Rendered.file.inj (Except.ok.inj h)
      exact ⟨types, rfl, rfl⟩
  · simp [pure, Except.pure] at h

/-- Whatever was written before, and whatever names were handed out, the declaration of a model or
of an enumeration inside a type adds the lines of its layout and leaves the level as it was. So in
the module of types of any interface the heads of types and instances and the signatures and
equations of functions stand at the margin, and constructors, fields, derived classes, methods,
options and alternatives further in. -/
theorem declarations_keep_layout (context : RenderContext) :
    (∀ (model : Model) (names : ModuleNames) (code : Code),
      let declaration := ((modelDeclaration context model).run names).1
      (declaration.write code).level = code.level ∧ (declaration.write code).pieces =
        code.pieces ++ declaration.layout.map (LayoutLine.piece code.level)) ∧
    (∀ (inline : InlineEnum) (names : ModuleNames) (code : Code),
      let declaration := ((inlineDeclaration context inline).run names).1
      (declaration.write code).level = code.level ∧ (declaration.write code).pieces =
        code.pieces ++ declaration.layout.map (LayoutLine.piece code.level)) ∧
    ∀ scope content notes, typesTemplate.render context scope = .ok (.file content notes) →
      ∃ types, typesModule context = .ok types ∧ types.IsLaidOut context content := by
  refine ⟨fun model names code => ?_, fun inline names code => ?_, ?_⟩
  · exact ⟨(LaysOut.write _ code).level, (LaysOut.write _ code).pieces⟩
  · exact ⟨(LaysOut.write _ code).level, (LaysOut.write _ code).pieces⟩
  · intro scope content notes hrender
    obtain ⟨types, htypes, rfl⟩ := exists_typesModule_of_render hrender
    obtain ⟨hmodels, rfl⟩ := typesModule_eq_ok_iff.1 htypes
    exact ⟨_, htypes, TypesModule.isLaidOut_text_code hmodels⟩

/-- Types of every kind: records with and without fields, enumerations and unions with and without
alternatives, a union with a tag and one without, names for a scalar and for a list, and an
enumeration inside a type. A comment of several lines goes with a type and with a field. -/
theorem declarations_keep_layout_every_kind :
    let text := "First.\r\n\n  data Evil = Evil"
    let models : List Model :=
      [⟨"Nothing", "nothing", some text, .record [], none⟩,
        ⟨"Pet", "pet", none, .record [
          ⟨"name", "name", .string, true, some text⟩,
          ⟨"kind", "kind", .optional (.enum "PetKind" ["cat", "dog"]), false, none⟩], none⟩,
        ⟨"Color", "color", none, .enum ["red", "red"], none⟩,
        ⟨"NoColor", "noColor", none, .enum [], none⟩,
        ⟨"Animal", "animal", none, .union ["Pet", "Nothing"],
          some ⟨"tag", [("pet", "Pet"), ("nothing", "Nothing")]⟩⟩,
        ⟨"Either", "either", none, .union ["Pet", "Nothing"], none⟩,
        ⟨"Never", "never", none, .union [], none⟩,
        ⟨"Name", "name", none, .alias .string, none⟩,
        ⟨"Pets", "pets", none, .alias (.array (.named "Pet")), none⟩]
    let context : RenderContext := ⟨⟨⟨"Shop", "1", none⟩, ⟨models⟩, []⟩, target⟩
    let margin : List String :=
      ["-- | First.", "--", "--   data Evil = Evil", "data Nothing = Nothing",
       "instance FromJSON Nothing where", "instance ToJSON Nothing where", "data Pet = Pet",
       "instance FromJSON Pet where", "instance ToJSON Pet where",
       "petJsonOptions :: Aeson.Options", "petJsonOptions =", "petJsonField :: String -> String",
       "petJsonField label = case label of", "data Color", "instance ToHttpApiData Color where",
       "instance FromHttpApiData Color where", "instance ToJSON Color where",
       "instance FromJSON Color where", "newtype NoColor = NoColor Text",
       "instance FromJSON NoColor where", "instance ToJSON NoColor where",
       "instance FromHttpApiData NoColor where", "instance ToHttpApiData NoColor where",
       "data Animal", "instance ToJSON Animal where", "instance FromJSON Animal where",
       "data Either", "instance ToJSON Either where", "instance FromJSON Either where",
       "newtype Never = Never Value", "instance FromJSON Never where",
       "instance ToJSON Never where", "newtype Name = Name Text", "instance FromJSON Name where",
       "instance ToJSON Name where", "instance FromHttpApiData Name where",
       "instance ToHttpApiData Name where", "newtype Pets = Pets [Pet]",
       "instance FromJSON Pets where", "instance ToJSON Pets where", "data PetKind",
       "instance ToHttpApiData PetKind where", "instance FromHttpApiData PetKind where",
       "instance ToJSON PetKind where", "instance FromJSON PetKind where"]
    ∃ content notes types, typesTemplate.render context .api = .ok (.file content notes) ∧
      typesModule context = .ok types ∧ types.IsLaidOut context content ∧
      Text.splitOn '\n' content = types.rows context ++ [""] ∧
      (types.layout.filter (·.role.place == .margin)).map LayoutLine.row = margin := by
  intro text models context margin
  have hrefers : context.api.RefersToItself := by
    refine ⟨by decide, ?_, by decide, by decide, by decide, by decide⟩
    simp [context, models]
    exact ⟨by decide, by decide⟩
  obtain ⟨content, notes, hrender⟩ := (render_typesTemplate hrefers).2 (by decide)
  obtain ⟨types, htypes, hlaid⟩ :=
    (declarations_keep_layout context).2.2 .api content notes hrender
  have hmargin : (typesModule context).toOption.map (fun types =>
      (types.layout.filter (·.role.place == .margin)).map LayoutLine.row) = some margin := by
    decide +kernel
  rw [htypes] at hmargin
  exact ⟨content, notes, types, hrender, htypes, hlaid, hlaid.read rfl (by decide),
    Option.some.inj hmargin⟩

end ServantGen.Haskell
