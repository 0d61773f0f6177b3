import ServantGen.Haskell.TypesModule
import ServantGen.Proofs.Haskell.WrittenLines

/-!
# Documentation stays documentation

Descriptions come from the document and may be any text. The module of types repeats them between
the lines of its declarations, each of their lines behind a mark of its own. So two interfaces that
differ in descriptions alone are written to the same lines, apart from lines that are comments; they
are refused alike, and names are handed out alike.
-/

namespace ServantGen

/-! ## Without descriptions -/

def Field.undescribed (field : Field) : Field :=
  { field with description := none }

def Shape.undescribed : Shape → Shape
  | .record fields => .record (fields.map Field.undescribed)
  | shape => shape

/-- A model without its description and those of its fields. -/
def Model.undescribed (model : Model) : Model :=
  { model with description := none, shape := model.shape.undescribed }

/-- An interface without the descriptions of its models and their fields. -/
def Api.undescribed (api : Api) : Api :=
  { api with models := ⟨api.models.models.map Model.undescribed⟩ }

/-- What a template looks at, without the descriptions of models and fields. -/
def RenderContext.undescribed (context : RenderContext) : RenderContext :=
  { context with api := context.api.undescribed }

@[simp] theorem Model.name_undescribed (model : Model) : model.undescribed.name = model.name := rfl

@[simp] theorem Model.types_undescribed (model : Model) :
    model.undescribed.types = model.types := by
  obtain ⟨name, rawName, description, shape, discriminator⟩ := model
  cases shape with
  | record fields => simp [undescribed, Shape.undescribed, types, Field.undescribed]
  | _ => rfl

namespace Api

variable (api : Api)

@[simp] theorem names_undescribed : api.undescribed.models.names = api.models.names := by
  simp [undescribed, ModelTable.names]

@[simp] theorem inlineEnums_undescribed : api.undescribed.inlineEnums = api.inlineEnums := by
  simp [undescribed, inlineEnums, types, List.flatMap_map]

theorem get?_undescribed (name : String) :
    api.undescribed.models.get? name = (api.models.get? name).map Model.undescribed := by
  simp [undescribed, ModelTable.get?, List.find?_map, Function.comp_def]

end Api

namespace Haskell

open Text (OnOneLine)

/-! ## Lines that are comments -/

/-- Whether a line is a comment: two hyphens come first on it, apart from blanks. -/
def isCommentLine (line : String) : Bool :=
  ['-', '-'].isPrefixOf (line.toList.dropWhile (· == ' '))

def uncommented (text : String) : String :=
  Text.join "\n" ((Text.splitOn '\n' text).filter fun line => !isCommentLine line)

/-- The outcome of a template, its content without the lines that are comments. -/
def uncommentedFile : Rendered → Rendered
  | .file content notes => .file (uncommented content) notes
  | .elided => .elided

def isCommentPiece : Piece → Bool
  | .line _ text => ['-', '-'].isPrefixOf text.toList && decide (OnOneLine text)
  | _ => false

def EndsLine : Piece → Prop
  | .raw _ => False
  | _ => True

section Pieces

variable {piece : Piece} {pieces : List Piece}

theorem madeOf_blank_replicate (level : Nat) :
    Text.MadeOf (· == ' ') (Text.replicate level indentStep.text) := by
  induction level with
  | zero => simp [Text.replicate, Text.MadeOf]
  | succ level ih =>
    rw [Text.replicate, List.replicate_succ, String.join_cons]
    exact Text.madeOf_append.2 ⟨by decide, ih⟩

theorem isCommentLine_row (h : isCommentPiece piece = true) :
    isCommentLine (piece.row indentStep) = true := by
  cases piece with
  | line level text =>
    have hindent := madeOf_blank_replicate level
    obtain ⟨hmark, -⟩ := Bool.and_eq_true_iff.1 h
    obtain ⟨rest, hrest⟩ := List.isPrefixOf_iff_prefix.1 hmark
    rw [isCommentLine, Piece.row, String.toList_append, List.dropWhile_append_of_pos hindent,
      ← hrest]
    simp
  | blank => simp [isCommentPiece] at h
  | raw text => simp [isCommentPiece] at h

theorem isRow_of_isCommentPiece (h : isCommentPiece piece = true) : piece.IsRow := by
  cases piece with
  | line level text =>
    have hline : OnOneLine text := of_decide_eq_true (Bool.and_eq_true_iff.1 h).2
    exact hline
  | blank => trivial
  | raw text => simp [isCommentPiece] at h

/-- A piece that ends its line is cut off from what stands behind it. -/
theorem splitOn_text_append (h : EndsLine piece) (indent : Indent) (rest : String) :
    Text.splitOn '\n' (piece.text indent ++ rest) =
      Text.splitOn '\n' (piece.row indent) ++ Text.splitOn '\n' rest := by
  have htext : piece.text indent = piece.row indent ++ "\n" := by
    cases piece with
    | raw text => exact h.elim
    | _ => rfl
  have hlist : (piece.row indent ++ "\n" ++ rest).toList =
      (piece.row indent).toList ++ '\n' :: rest.toList := by simp
  rw [htext, Text.splitOn, hlist, Text.splitBy_append_cons (by decide), List.map_append]
  rfl

/-- Without lines that are comments a text is the same without the pieces that are. -/
theorem uncommented_join (h : ∀ piece ∈ pieces, EndsLine piece) :
    uncommented (String.join (pieces.map (Piece.text indentStep))) =
      uncommented (String.join
        ((pieces.filter fun piece => !isCommentPiece piece).map (Piece.text indentStep))) := by
  refine congrArg (Text.join "\n") ?_
  induction pieces with
  | nil => rfl
  | cons piece pieces ih =>
    obtain ⟨hpiece, hpieces⟩ := List.forall_mem_cons.1 h
    rw [List.map_cons, String.join_cons, splitOn_text_append hpiece, List.filter_append,
      ih hpieces]
    cases hcomment : isCommentPiece piece with
    | true =>
      have hline := Text.splitOn_eq_singleton
        ((isRow_of_isCommentPiece hcomment).onOneLine_row indentStep)
      simp [hcomment, hline, isCommentLine_row hcomment]
    | false =>
      rw [List.filter_cons_of_pos (by simp [hcomment]), List.map_cons, String.join_cons,
        splitOn_text_append hpiece, List.filter_append]

end Pieces

/-! ## Code that differs in comments -/

theorem isPrefixOf_commentLine {mark : String} (hmark : mark ∈ commentMarks) (text : List Char) :
    ['-', '-'].isPrefixOf (Code.commentLine mark text).toList = true := by
  have hmarks : ∀ mark ∈ commentMarks, ['-', '-'] <+: mark.toList := by decide
  rw [List.isPrefixOf_iff_prefix]
  unfold Code.commentLine
  split
  · exact hmarks mark hmark
  · rw [String.toList_append, String.toList_append, List.append_assoc]
    exact (hmarks mark hmark).trans (List.prefix_append _ _)

/-- Whatever text is made a comment, each line of it is one. -/
theorem isCommentPiece_of_mem_commentLines {first rest : String} (hfirst : first ∈ commentMarks)
    (hrest : rest ∈ commentMarks) (text : String) :
    ∀ line ∈ Code.commentLines first rest text, ∀ level,
      isCommentPiece (.line level line) = true := by
  intro line hline level
  have hone := (commentLines_silent hfirst hrest text line hline).1
  refine Bool.and_eq_true_iff.2 ⟨?_, decide_eq_true hone⟩
  unfold Code.commentLines at hline
  split at hline
  · simp at hline
  · obtain rfl | hline := List.mem_cons.1 hline
    · exact isPrefixOf_commentLine hfirst _
    · obtain ⟨own, -, rfl⟩ := List.mem_map.1 hline
      exact isPrefixOf_commentLine hrest own

/-- Code that is the same apart from pieces that are comments, and in which every line is ended. -/
structure SameButComments (code code' : Code) : Prop where
  level : code.level = code'.level
  pieces : (code.pieces.filter fun piece => !isCommentPiece piece) =
    code'.pieces.filter fun piece => !isCommentPiece piece
  ended : ∀ piece ∈ code.pieces, EndsLine piece
  ended' : ∀ piece ∈ code'.pieces, EndsLine piece

namespace SameButComments

variable {code code' : Code}

theorem empty : SameButComments .empty .empty :=
  ⟨rfl, rfl, by simp [Code.empty], by simp [Code.empty]⟩

theorem uncommented_text (h : SameButComments code code') :
    uncommented (code.text indentStep) = uncommented (code'.text indentStep) := by
  rw [Code.text, Code.text, uncommented_join h.ended, uncommented_join h.ended', h.pieces]

theorem indent (h : SameButComments code code') : SameButComments code.indent code'.indent :=
  ⟨congrArg (· + 1) h.level, h.pieces, h.ended, h.ended'⟩

theorem dedent (h : SameButComments code code') : SameButComments code.dedent code'.dedent :=
  ⟨congrArg (· - 1) h.level, h.pieces, h.ended, h.ended'⟩

theorem add (h : SameButComments code code') {piece : Piece} (hpiece : EndsLine piece) :
    SameButComments (code.add piece) (code'.add piece) where
  level := h.level
  pieces := by simp [Code.add, h.pieces]
  ended := List.forall_mem_append.2 ⟨h.ended, List.forall_mem_singleton.2 hpiece⟩
  ended' := List.forall_mem_append.2 ⟨h.ended', List.forall_mem_singleton.2 hpiece⟩

theorem blank (h : SameButComments code code') : SameButComments code.blank code'.blank :=
  h.add trivial

theorem line (h : SameButComments code code') (text : String) :
    SameButComments (code.line text) (code'.line text) := by
  unfold Code.line
  split
  · exact h.blank
  · rw [h.level]
    exact h.add trivial

theorem lines (h : SameButComments code code') (texts : List String) :
    SameButComments (code.lines texts) (code'.lines texts) := by
  induction texts generalizing code code' with
  | nil => exact h
  | cons text texts ih => exact ih (h.line text)

/-- Comments on one side make no difference, whatever their text. -/
theorem comment (h : SameButComments code code') {first rest : String}
    (hfirst : first ∈ commentMarks) (hrest : rest ∈ commentMarks) (text : String) :
    SameButComments (code.comment first rest text) code' := by
  have hcomments := isCommentPiece_of_mem_commentLines hfirst hrest text
  unfold Code.comment
  revert hcomments
  induction Code.commentLines first rest text generalizing code with
  | nil => exact fun _ => h
  | cons line lines ih =>
    intro hcomments
    obtain ⟨hline, hlines⟩ := List.forall_mem_cons.1 hcomments
    refine ih ?_ hlines
    have hne : line ≠ "" := by
      rintro rfl
      exact absurd (hline 0) (by decide)
    change SameButComments (code.line line) code'
    unfold Code.line
    rw [if_neg hne]
    exact ⟨h.level, by simp [Code.add, hline code.level, h.pieces],
      List.forall_mem_append.2 ⟨h.ended, by simp [EndsLine]⟩, h.ended'⟩

/-! ### Declarations -/

theorem writeInstance (h : SameButComments code code') (className name line : String) :
    SameButComments (writeInstance className name line code)
      (writeInstance className name line code') :=
  h.line _ |>.indent |>.line _ |>.dedent

theorem writeCaseInstance (h : SameButComments code code') (className name head : String)
    (alternatives : List String) :
    SameButComments (writeCaseInstance className name head alternatives code)
      (writeCaseInstance className name head alternatives code') :=
  h.line _ |>.indent |>.line _ |>.indent |>.lines _ |>.dedent |>.dedent

theorem writeUnit (h : SameButComments code code') (name : String) :
    SameButComments (writeUnit name code) (writeUnit name code') :=
  h.line _ |>.indent |>.line _ |>.dedent |>.blank
    |>.writeInstance _ _ _ |>.blank |>.writeInstance _ _ _

theorem writeEnum (h : SameButComments code code') (name title : String)
    (constructors : List (String × String)) :
    SameButComments (writeEnum name title constructors code)
      (writeEnum name title constructors code') :=
  h.line _ |>.indent |>.lines _ |>.line _ |>.dedent |>.blank
    |>.writeCaseInstance _ _ _ _ |>.blank |>.writeCaseInstance _ _ _ _ |>.blank
    |>.writeInstance _ _ _ |>.blank |>.writeInstance _ _ _

theorem writeUnionReader (h : SameButComments code code') (name : String)
    (constructors : List (String × String)) (discriminator : Option Discriminator) :
    SameButComments (writeUnionReader name constructors discriminator code)
      (writeUnionReader name constructors discriminator code') := by
  cases discriminator with
  | some discriminator =>
    exact h.line _ |>.indent |>.line _ |>.line _ |>.indent |>.lines _ |>.line _
      |>.dedent |>.dedent
  | none => exact h.line _ |>.indent |>.lines _ |>.dedent

theorem writeUnion (h : SameButComments code code') (name : String)
    (constructors : List (String × String)) (discriminator : Option Discriminator) :
    SameButComments (writeUnion name constructors discriminator code)
      (writeUnion name constructors discriminator code') :=
  h.line _ |>.indent |>.lines _ |>.line _ |>.dedent |>.blank
    |>.writeCaseInstance _ _ _ _ |>.blank
    |>.line _ |>.indent |>.writeUnionReader _ _ _ |>.dedent

theorem writeNewtype (h : SameButComments code code') (name : String) (type : DataType) :
    SameButComments (writeNewtype name type code) (writeNewtype name type code') := by
  have hjson := fun line instance₁ instance₂ => h.line line |>.indent
    |>.line "deriving (Show, Eq, Generic)" |>.dedent |>.blank
    |>.writeInstance "FromJSON" name instance₁ |>.blank |>.writeInstance "ToJSON" name instance₂
  unfold Haskell.writeNewtype
  split
  · exact hjson _ _ _ |>.blank |>.writeInstance _ _ _ |>.blank |>.writeInstance _ _ _
  · exact hjson _ _ _

end SameButComments

/-! ## Declarations without descriptions -/

def Selector.undescribed (selector : Selector) : Selector :=
  { selector with description := none }

def DeclarationBody.undescribed : DeclarationBody → DeclarationBody
  | .record selectors options label => .record (selectors.map Selector.undescribed) options label
  | body => body

def Declaration.undescribed (declaration : Declaration) : Declaration :=
  ⟨declaration.name, none, declaration.body.undescribed⟩

namespace SameButComments

variable {code code' : Code}

theorem writeSelector (h : SameButComments code code') (lead : String) (selector : Selector) :
    SameButComments (writeSelector lead code selector)
      (writeSelector lead code' selector.undescribed) := by
  have hline := h.line (lead ++ " " ++ selector.name ++ " :: " ++ typeText selector.type)
  obtain ⟨name, property, type, description⟩ := selector
  cases description with
  | none => exact hline
  | some description =>
    have hcomment : SameButComments _ _ := hline.indent.comment
      (by decide : "-- ^" ∈ commentMarks) (by decide : "--" ∈ commentMarks) description
    exact hcomment.dedent

theorem writeSelectors (h : SameButComments code code') (selectors : List Selector) :
    SameButComments (writeSelectors selectors code)
      (writeSelectors (selectors.map Selector.undescribed) code') := by
  cases selectors with
  | nil => exact h
  | cons first rest =>
    have hfirst := h.writeSelector "\x7b" first
    rw [List.map_cons, Haskell.writeSelectors, Haskell.writeSelectors]
    generalize Haskell.writeSelector "\x7b" code first = start at hfirst
    generalize Haskell.writeSelector "\x7b" code' first.undescribed = start' at hfirst
    induction rest generalizing start start' with
    | nil => exact hfirst
    | cons selector rest ih => exact ih _ _ (hfirst.writeSelector "," selector)

theorem writeRecord (h : SameButComments code code') (name : String) (selectors : List Selector)
    (options label : String) :
    SameButComments (writeRecord name selectors options label code)
      (writeRecord name (selectors.map Selector.undescribed) options label code') := by
  have hlabels : (selectors.map Selector.undescribed).map (fun s => (s.name, s.property)) =
      selectors.map fun s => (s.name, s.property) := by
    simp [Selector.undescribed, Function.comp_def]
  unfold Haskell.writeRecord
  rw [hlabels]
  exact h.line _ |>.indent |>.writeSelectors _ |>.line _ |>.line _ |>.dedent |>.blank
    |>.writeInstance _ _ _ |>.blank |>.writeInstance _ _ _ |>.blank
    |>.line _ |>.line _ |>.indent |>.line _ |>.indent |>.line _ |>.line _ |>.line _
    |>.dedent |>.dedent |>.blank
    |>.line _ |>.line _ |>.indent |>.lines _ |>.line _ |>.dedent

/-- A declaration without a description of its own is written as if nothing in it had one. -/
theorem writePlain (h : SameButComments code code') (name : String) (body : DeclarationBody) :
    SameButComments (Declaration.write ⟨name, none, body⟩ code)
      ((Declaration.undescribed ⟨name, none, body⟩).write code') := by
  cases body with
  | unit => exact h.writeUnit name
  | record selectors options label => exact h.writeRecord name selectors options label
  | enum title constructors => exact h.writeEnum name title constructors
  | union constructors discriminator => exact h.writeUnion name constructors discriminator
  | newtype type => exact h.writeNewtype name type

/-- A declaration is written as if it had no descriptions, apart from comments. -/
theorem write (h : SameButComments code code') (declaration : Declaration) :
    SameButComments (declaration.write code) (declaration.undescribed.write code') := by
  obtain ⟨name, description, body⟩ := declaration
  cases description with
  | none => exact h.writePlain name body
  | some description =>
    exact (h.comment (by decide) (by decide) description).writePlain name body

end SameButComments

/-! ## Names without descriptions -/

section Names

variable (context : RenderContext)

@[simp] theorem typeNames_undescribed : typeNames context.undescribed = typeNames context := by
  simp [typeNames, RenderContext.undescribed]

@[simp] theorem hasTypes_undescribed : hasTypes context.undescribed = hasTypes context := by
  have hempty : context.undescribed.api.models.models.isEmpty =
      context.api.models.models.isEmpty := by
    simp [RenderContext.undescribed, Api.undescribed]
  rw [hasTypes, hempty, hasTypes, RenderContext.undescribed, Api.inlineEnums_undescribed]

@[simp] theorem placedReferences_undescribed (model : Model) :
    placedReferences model.undescribed = placedReferences model := by
  obtain ⟨name, rawName, description, shape, discriminator⟩ := model
  cases shape with
  | record fields =>
    simp [placedReferences, Model.undescribed, Shape.undescribed, List.flatMap_map,
      Field.undescribed]
  | _ => rfl

theorem checkModels_undescribed : checkModels context.undescribed = checkModels context := by
  have hreferences : context.undescribed.api.models.models.flatMap placedReferences =
      context.api.models.models.flatMap placedReferences := by
    simp [RenderContext.undescribed, Api.undescribed, List.flatMap_map]
  unfold checkModels
  rw [hreferences]
  refine congrArg (List.forM _) (funext fun (name, place) => ?_)
  have hget := Api.get?_undescribed context.api name
  simp only [RenderContext.resolveModel, RenderContext.undescribed, hget]
  cases context.api.models.get? name <;> rfl

/-- A pass over changed items is a pass over the items with changed results. -/
theorem mapM_map_eq {α β γ δ : Type} {change : α → γ} {finish : β → δ} {step : α → NamesM β}
    {step' : γ → NamesM δ} (h : ∀ item, step' (change item) = finish <$> step item)
    (items : List α) : (items.map change).mapM step' = List.map finish <$> items.mapM step := by
  induction items with
  | nil => rfl
  | cons item items ih => simp [List.mapM_cons, h, ih]

theorem selectorsOf_undescribed (name : String) (fields : List Field) :
    selectorsOf context.undescribed name (fields.map Field.undescribed) =
      List.map Selector.undescribed <$> selectorsOf context name fields :=
  mapM_map_eq (fun field => by simp [Field.undescribed, Selector.undescribed]; rfl) fields

theorem recordBody_undescribed (name : String) (fields : List Field) :
    recordBody context.undescribed name (fields.map Field.undescribed) =
      DeclarationBody.undescribed <$> recordBody context name fields := by
  unfold recordBody
  rw [List.isEmpty_map, selectorsOf_undescribed]
  split
  · rfl
  · simp only [bind_map_left, map_bind, map_pure]
    rfl

theorem enumBody_undescribed (name title : String) (values : List String) :
    enumBody context.undescribed name title values =
      DeclarationBody.undescribed <$> enumBody context name title values := by
  unfold enumBody
  split
  · rfl
  · simp only [map_bind, map_pure]
    rfl

theorem unionBody_undescribed (name : String) (variants : List String)
    (discriminator : Option Discriminator) :
    unionBody name variants discriminator =
      DeclarationBody.undescribed <$> unionBody name variants discriminator := by
  unfold unionBody
  split
  · rfl
  · simp only [map_bind, map_pure]
    rfl

theorem declaration_undescribed {body body' : NamesM DeclarationBody}
    (h : body' = DeclarationBody.undescribed <$> body) (name : String)
    (description : Option String) :
    (do return ⟨name, none, ← body'⟩ : NamesM Declaration) =
      Declaration.undescribed <$> do return ⟨name, description, ← body⟩ := by
  rw [h]
  simp only [bind_map_left, map_bind, map_pure]
  rfl

theorem modelDeclaration_undescribed (model : Model) :
    modelDeclaration context.undescribed model.undescribed =
      Declaration.undescribed <$> modelDeclaration context model := by
  obtain ⟨name, rawName, description, shape, discriminator⟩ := model
  cases shape with
  | record fields =>
    exact declaration_undescribed (recordBody_undescribed context name fields) name description
  | enum values =>
    exact declaration_undescribed (enumBody_undescribed context name rawName values) name
      description
  | union variants =>
    exact declaration_undescribed (unionBody_undescribed name variants discriminator) name
      description
  | _ => rfl

theorem inlineDeclaration_undescribed (inline : InlineEnum) :
    inlineDeclaration context.undescribed inline =
      Declaration.undescribed <$> inlineDeclaration context inline :=
  declaration_undescribed (enumBody_undescribed context inline.name inline.name inline.values)
    inline.name none

theorem declarations_undescribed :
    declarations context.undescribed =
      List.map Declaration.undescribed <$> declarations context := by
  have hmodels : context.undescribed.api.models.models.mapM
      (modelDeclaration context.undescribed) = List.map Declaration.undescribed <$>
        context.api.models.models.mapM (modelDeclaration context) :=
    mapM_map_eq (modelDeclaration_undescribed context) context.api.models.models
  have hsame : context.undescribed.api.inlineEnums = context.api.inlineEnums :=
    Api.inlineEnums_undescribed context.api
  have hinlines : (context.api.inlineEnums.map id).mapM (inlineDeclaration context.undescribed) =
      List.map Declaration.undescribed <$>
        context.api.inlineEnums.mapM (inlineDeclaration context) :=
    mapM_map_eq (inlineDeclaration_undescribed context) context.api.inlineEnums
  rw [List.map_id] at hinlines
  unfold declarations
  rw [hmodels, hsame, hinlines]
  simp only [bind_map_left, map_bind, map_pure, List.map_append]

end Names

/-! ## The module of types -/

def TypesModule.undescribed (types : TypesModule) : TypesModule :=
  { types with declarations := types.declarations.map Declaration.undescribed }

theorem typesModule_undescribed (context : RenderContext) :
    typesModule context.undescribed = (typesModule context).map TypesModule.undescribed := by
  have hnames : moduleName context.undescribed = moduleName context := rfl
  unfold typesModule
  rw [checkModels_undescribed, declarations_undescribed, typeNames_undescribed, hnames]
  cases checkModels context with
  | error error => rfl
  | ok found => rfl

theorem SameButComments.writeDeclarations {code code' : Code} (h : SameButComments code code')
    (declarations : List Declaration) :
    SameButComments (declarations.foldl (fun code declaration => declaration.write code.blank) code)
      ((declarations.map Declaration.undescribed).foldl
        (fun code declaration => declaration.write code.blank) code') := by
  induction declarations generalizing code code' with
  | nil => exact h
  | cons declaration declarations ih => exact ih (h.blank.write declaration)

namespace TypesModule

variable (types : TypesModule)

@[simp] theorem exports_undescribed : types.undescribed.exports = types.exports := by
  simp [undescribed, exports, Declaration.undescribed]

@[simp] theorem imports_undescribed : types.undescribed.imports = types.imports := by
  have hbody : ∀ body : DeclarationBody, body.undescribed.imports = body.imports := by
    intro body
    cases body with
    | record selectors options label =>
      simp [DeclarationBody.undescribed, DeclarationBody.imports, List.flatMap_map,
        Selector.undescribed]
    | _ => rfl
  simp [undescribed, imports, List.flatMap_map, Declaration.undescribed, hbody]

/-- The module is written as if nothing was described, apart from comments. -/
theorem sameButComments_code (context : RenderContext) :
    SameButComments (types.code context) (types.undescribed.code context.undescribed) := by
  have hheader : headerComment context.undescribed "Types" = headerComment context "Types" := rfl
  unfold code
  rw [exports_undescribed, imports_undescribed, hheader]
  refine SameButComments.writeDeclarations ?_ types.declarations
  exact SameButComments.empty |>.lines _ |>.blank |>.lines _ |>.line _
    |>.indent |>.lines _ |>.line _ |>.dedent |>.blank |>.lines _ |>.line _

end TypesModule

/-- Descriptions change nothing but comments in what is rendered. -/
theorem uncommented_render_undescribed (context : RenderContext) (scope : RenderScope) :
    (typesTemplate.render context.undescribed scope).map uncommentedFile =
      (typesTemplate.render context scope).map uncommentedFile := by
  change (if hasTypes context.undescribed then _ else _ : Except RenderError Rendered).map _ =
    (if hasTypes context then _ else _ : Except RenderError Rendered).map _
  rw [hasTypes_undescribed, typesModule_undescribed]
  split
  · cases typesModule context with
    | error error => rfl
    | ok types =>
      have htext := (types.sameButComments_code context).uncommented_text
      exact congrArg (fun text => Except.ok (Rendered.file text types.notes)) htext.symm
  · rfl

/-- Two interfaces that differ in the descriptions of models and fields alone have the same module
of types apart from lines that are comments: it is rendered for one when it is for the other, with
the same notes. -/
theorem uncommented_types_eq {api api' : Api} (h : api.undescribed = api'.undescribed)
    (target : Target) (scope : RenderScope) :
    (typesTemplate.render ⟨api, target⟩ scope).map uncommentedFile =
      (typesTemplate.render ⟨api', target⟩ scope).map uncommentedFile := by
  have hcontext : RenderContext.undescribed ⟨api, target⟩ =
      RenderContext.undescribed ⟨api', target⟩ :=
    congrArg (RenderContext.mk · target) h
  rw [← uncommented_render_undescribed ⟨api, target⟩, hcontext, uncommented_render_undescribed]

/-- A description that opens a comment of another kind, adds a field and a declaration, and ends
its lines in several ways: each of its lines becomes a comment, and nothing else changes. -/
theorem uncommented_types_eq_hostile :
    let description := "\x7b- \r\n\n  , evil :: Text\n-- \x7d\ndata Evil = Evil\r"
    let api (description : Option String) : Api :=
      ⟨⟨"Shop", "1", none⟩, ⟨[⟨"Pet", "Pet", description,
        .record [⟨"age", "age", .primitive .int32, true, description⟩], none⟩]⟩, []⟩
    (api (some description)).undescribed = (api none).undescribed ∧
      Code.commentLines "-- |" "--" description =
        ["-- | \x7b-", "--", "--   , evil :: Text", "-- -- \x7d", "-- data Evil = Evil"] ∧
      (typesTemplate.render ⟨api (some description), target⟩ .api).map uncommentedFile =
        (typesTemplate.render ⟨api none, target⟩ .api).map uncommentedFile := by
  intro description api
  have hsame : (api (some description)).undescribed = (api none).undescribed := rfl
  exact ⟨hsame, by decide +kernel, uncommented_types_eq hsame target .api⟩

end Haskell

end ServantGen
