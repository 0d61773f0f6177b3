import ServantGen.Proofs.Haskell.Documentation
import ServantGen.Proofs.Haskell.TypesText

/-!
# The layout of declarations

Columns decide where a declaration ends: a line at the margin begins something, and lines further in
belong to what was begun. The layout of a declaration is described here as lines under lines, each
with what it is there for.

Writing is followed from one writer to the next: each adds the lines of its layout and leaves the
code at the level at which it was. No level is taken back that was not added under the same line, so
layouts follow one another whatever was written before.
-/

namespace ServantGen.Haskell

/-! ## Lines with a place -/

inductive LinePlace where
  /-- There is nothing on the line. -/
  | empty
  | margin
  | inside
  deriving DecidableEq, Repr

inductive LineRole where
  | blank
  /-- A comment about a type. -/
  | documentation
  /-- The head of a type, old or new. -/
  | typeHead
  | instanceHead
  /-- The type of a function. -/
  | signature
  /-- The first line of the equation of a function. -/
  | equation
  | constructor
  | field
  /-- A comment about a field. -/
  | fieldDocumentation
  /-- The brace behind the fields. -/
  | closing
  /-- The classes that are derived. -/
  | derived
  | method
  | option
  /-- An alternative of a case expression. -/
  | alternative
  deriving DecidableEq, Repr

/-- What begins something stands at the margin, and what belongs to something further in. -/
def LineRole.place : LineRole → LinePlace
  | .blank => .empty
  | .documentation | .typeHead | .instanceHead | .signature | .equation => .margin
  | .constructor | .field | .fieldDocumentation | .closing | .derived | .method | .option
  | .alternative => .inside

/-- A line of a declaration, and how many lines it stands under. -/
structure LayoutLine where
  role : LineRole
  depth : Nat
  text : String
  deriving DecidableEq, Repr

namespace LayoutLine

/-- The line between two parts of a declaration. -/
def blank : LayoutLine := ⟨.blank, 0, ""⟩

def deeper (line : LayoutLine) : LayoutLine :=
  { line with depth := line.depth + 1 }

/-- The piece of code that the line becomes at a level. -/
def piece (level : Nat) (line : LayoutLine) : Piece :=
  if line.text = "" then .blank else .line (level + line.depth) line.text

def row (line : LayoutLine) : String :=
  Code.rowAt indentStep line.depth line.text

/-- A line stands where its role asks for: at the margin it begins in the first column, further in
it comes behind blanks. -/
def InPlace (line : LayoutLine) : Prop :=
  match line.role.place with
  | .empty => line.row = ""
  | .margin => line.text ≠ "" ∧ line.row = line.text
  | .inside => line.text ≠ "" ∧
      ∃ depth, line.row = Text.replicate (depth + 1) indentStep.text ++ line.text

/-- A line that belongs under another one. -/
def Belongs (line : LayoutLine) : Prop :=
  line.role.place = .inside ∧ line.text ≠ ""

end LayoutLine

def under (role : LineRole) (text : String) (inside : List LayoutLine) : List LayoutLine :=
  ⟨role, 0, text⟩ :: inside.map LayoutLine.deeper

def linesAs (role : LineRole) (texts : List String) : List LayoutLine :=
  texts.map (LayoutLine.mk role 0)

def apart (lines : List LayoutLine) : List LayoutLine :=
  .blank :: lines

section Lines

variable {role : LineRole} {text : String} {texts : List String} {lines inside : List LayoutLine}

theorem belongs_linesAs (hrole : role.place = .inside) (h : ∀ text ∈ texts, text ≠ "") :
    ∀ line ∈ linesAs role texts, line.Belongs :=
  List.forall_mem_map.2 fun text htext => ⟨hrole, h text htext⟩

theorem belongs_under (hrole : role.place = .inside) (htext : text ≠ "")
    (h : ∀ line ∈ inside, line.Belongs) : ∀ line ∈ under role text inside, line.Belongs :=
  List.forall_mem_cons.2 ⟨⟨hrole, htext⟩, List.forall_mem_map.2 h⟩

theorem inPlace_of_margin (hrole : role.place = .margin) (htext : text ≠ "") :
    LayoutLine.InPlace ⟨role, 0, text⟩ := by
  simp [LayoutLine.InPlace, LayoutLine.row, hrole, htext]

/-- What belongs under a line stands further in than that line. -/
theorem LayoutLine.Belongs.inPlace_deeper {line : LayoutLine} (h : line.Belongs) :
    line.deeper.InPlace := by
  obtain ⟨hrole, htext⟩ := h
  have hown : line.deeper.role.place = .inside := hrole
  rw [InPlace, hown]
  exact ⟨htext, line.depth, by simp [row, deeper, Code.rowAt, htext]⟩

theorem inPlace_linesAs (hrole : role.place = .margin) (h : ∀ text ∈ texts, text ≠ "") :
    ∀ line ∈ linesAs role texts, line.InPlace :=
  List.forall_mem_map.2 fun text htext => inPlace_of_margin hrole (h text htext)

theorem inPlace_under (hrole : role.place = .margin) (htext : text ≠ "")
    (h : ∀ line ∈ inside, line.Belongs) : ∀ line ∈ under role text inside, line.InPlace :=
  List.forall_mem_cons.2 ⟨inPlace_of_margin hrole htext,
    List.forall_mem_map.2 fun line hline => (h line hline).inPlace_deeper⟩

theorem inPlace_apart (h : ∀ line ∈ lines, line.InPlace) : ∀ line ∈ apart lines, line.InPlace :=
  List.forall_mem_cons.2 ⟨rfl, h⟩

end Lines

/-! ## Layouts of declarations -/

def commentLayout (role : LineRole) (mark : String) : Option String → List LayoutLine
  | some text => linesAs role (Code.commentLines mark "--" text)
  | none => []

def instanceLayout (className name line : String) : List LayoutLine :=
  under .instanceHead (instanceHead className name) [⟨.method, 0, line⟩]

def caseInstanceLayout (className name line : String) (alternatives : List String) :
    List LayoutLine :=
  under .instanceHead (instanceHead className name)
    (under .method line (linesAs .alternative alternatives))

def unitLayout (name : String) : List LayoutLine :=
  under .typeHead ("data " ++ name ++ " = " ++ name)
      [⟨.derived, 0, "deriving (Show, Eq, Generic)"⟩] ++
    apart (instanceLayout "FromJSON" name
      ("parseJSON = Aeson.withObject " ++ literal name ++ " (\\_ -> pure " ++ name ++ ")")) ++
    apart (instanceLayout "ToJSON" name "toJSON _ = Aeson.object []")

def Selector.layout (lead : String) (selector : Selector) : List LayoutLine :=
  under .field (lead ++ " " ++ selector.name ++ " :: " ++ typeText selector.type)
    (commentLayout .fieldDocumentation "-- ^" selector.description)

def selectorsLayout : List Selector → List LayoutLine
  | [] => []
  | first :: rest => first.layout "\x7b" ++ rest.flatMap (Selector.layout ",")

def optionsLayout (options label : String) : List LayoutLine :=
  ⟨.signature, 0, options ++ " :: Aeson.Options"⟩ :: under .equation (options ++ " =")
    (under .option "Aeson.defaultOptions" (linesAs .option
      ["\x7b Aeson.fieldLabelModifier = " ++ label, ", Aeson.omitNothingFields = True", "\x7d"]))

def labelLayout (label : String) (selectors : List Selector) : List LayoutLine :=
  ⟨.signature, 0, label ++ " :: String -> String"⟩ ::
    under .equation (label ++ " label = case label of")
      (linesAs .alternative
          (labelLines (selectors.map fun selector => (selector.name, selector.property))) ++
        [⟨.alternative, 0, "other -> other"⟩])

def recordLayout (name : String) (selectors : List Selector) (options label : String) :
    List LayoutLine :=
  under .typeHead ("data " ++ name ++ " = " ++ name)
      (selectorsLayout selectors ++
        [⟨.closing, 0, "\x7d"⟩, ⟨.derived, 0, "deriving (Show, Eq, Generic)"⟩]) ++
    apart (instanceLayout "FromJSON" name ("parseJSON = Aeson.genericParseJSON " ++ options)) ++
    apart (instanceLayout "ToJSON" name ("toJSON = Aeson.genericToJSON " ++ options)) ++
    apart (optionsLayout options label) ++
    apart (labelLayout label selectors)

def enumLayout (name title : String) (constructors : List (String × String)) : List LayoutLine :=
  under .typeHead ("data " ++ name)
      (linesAs .constructor (constructorLines (constructors.map Prod.fst)) ++
        [⟨.derived, 0, "deriving (Show, Eq, Ord, Enum, Bounded, Generic)"⟩]) ++
    apart (caseInstanceLayout "ToHttpApiData" name "toUrlPiece value = case value of"
      (constructors.map fun (constructor, value) => constructor ++ " -> " ++ literal value)) ++
    apart (caseInstanceLayout "FromHttpApiData" name "parseUrlPiece text = case text of"
      ((constructors.map fun (constructor, value) =>
          literal value ++ " -> Right " ++ constructor) ++
        ["other -> Left (\"unknown \" <> " ++ literal title ++ " <> \": \" <> other)"])) ++
    apart (instanceLayout "ToJSON" name "toJSON = Aeson.String . toUrlPiece") ++
    apart (instanceLayout "FromJSON" name ("parseJSON = Aeson.withText " ++ literal title ++
      " (either (fail . show) pure . parseUrlPiece)"))

/-- The lines that try one constructor after the other. -/
def attemptLines (constructors : List (String × String)) : List String :=
  match constructors.map fun (constructor, _) => "(" ++ constructor ++ " <$> parseJSON json)" with
  | [] => []
  | first :: rest => first :: rest.map ("  <|> " ++ ·)

/-- The reading of a union: by its tag, or by trying one variant after the other. -/
def unionReaderLayout (name : String) (constructors : List (String × String)) :
    Option Discriminator → List LayoutLine
  | some discriminator =>
    under .method ("parseJSON = Aeson.withObject " ++ literal name ++ " $ \\object -> do")
      (⟨.method, 0, "tag <- object Aeson..: " ++ literal discriminator.property⟩ ::
        under .method "case (tag :: Text) of"
          (linesAs .alternative (tagLines constructors discriminator.mapping) ++
            [⟨.alternative, 0, "other -> fail (\"unknown " ++ name ++ " tag: \" <> show other)"⟩]))
  | none => under .method "parseJSON json =" (linesAs .method (attemptLines constructors))

def unionLayout (name : String) (constructors : List (String × String))
    (discriminator : Option Discriminator) : List LayoutLine :=
  under .typeHead ("data " ++ name)
      (linesAs .constructor (constructorLines (constructors.map fun (constructor, variant) =>
          constructor ++ " " ++ variant)) ++
        [⟨.derived, 0, "deriving (Show, Eq, Generic)"⟩]) ++
    apart (caseInstanceLayout "ToJSON" name "toJSON value = case value of"
      (constructors.map fun (constructor, _) => constructor ++ " inner -> toJSON inner")) ++
    apart (under .instanceHead (instanceHead "FromJSON" name)
      (unionReaderLayout name constructors discriminator))

def newtypeLayout (name : String) (type : DataType) : List LayoutLine :=
  under .typeHead ("newtype " ++ name ++ " = " ++ name ++ " " ++ atomText type)
      [⟨.derived, 0, "deriving (Show, Eq, Generic)"⟩] ++
    apart (instanceLayout "FromJSON" name ("parseJSON json = " ++ name ++ " <$> parseJSON json")) ++
    apart (instanceLayout "ToJSON" name ("toJSON (" ++ name ++ " inner) = toJSON inner")) ++
    if isScalar type then
      apart (instanceLayout "FromHttpApiData" name
        ("parseUrlPiece piece = " ++ name ++ " <$> parseUrlPiece piece")) ++
      apart (instanceLayout "ToHttpApiData" name
        ("toUrlPiece (" ++ name ++ " inner) = toUrlPiece inner"))
    else []

def DeclarationBody.layout (name : String) : DeclarationBody → List LayoutLine
  | .unit => unitLayout name
  | .record selectors options label => recordLayout name selectors options label
  | .enum title constructors => enumLayout name title constructors
  | .union constructors discriminator => unionLayout name constructors discriminator
  | .newtype type => newtypeLayout name type

def Declaration.layout (declaration : Declaration) : List LayoutLine :=
  commentLayout .documentation "-- |" declaration.description ++
    declaration.body.layout declaration.name

/-- The lines of all declarations, each behind an empty one. -/
def TypesModule.layout (types : TypesModule) : List LayoutLine :=
  types.declarations.flatMap fun declaration => apart declaration.layout

/-! ## Writing lines -/

/-- Lines are added to code, which is left at the level at which it was. -/
structure LaysOut (code after : Code) (layout : List LayoutLine) : Prop where
  level : after.level = code.level
  pieces : after.pieces = code.pieces ++ layout.map (LayoutLine.piece code.level)

namespace LaysOut

variable {code middle after : Code} {layout others : List LayoutLine}

theorem nothing (code : Code) : LaysOut code code [] :=
  ⟨rfl, by simp⟩

theorem trans (h : LaysOut code middle layout) (h' : LaysOut middle after others) :
    LaysOut code after (layout ++ others) where
  level := h'.level.trans h.level
  pieces := by rw [h'.pieces, h.pieces, h.level, List.map_append, List.append_assoc]

theorem line (role : LineRole) (text : String) (code : Code) :
    LaysOut code (code.line text) [⟨role, 0, text⟩] := by
  refine ⟨code.level_line text, ?_⟩
  unfold Code.line
  split
  · rename_i h
    simp [Code.blank, Code.add, LayoutLine.piece, h]
  · rename_i h
    simp [Code.add, LayoutLine.piece, h]

theorem lines (role : LineRole) (texts : List String) (code : Code) :
    LaysOut code (code.lines texts) (linesAs role texts) := by
  induction texts generalizing code with
  | nil => exact nothing code
  | cons text texts ih => exact (line role text code).trans (ih _)

theorem comment (role : LineRole) (mark text : String) (code : Code) :
    LaysOut code (code.comment mark "--" text) (commentLayout role mark (some text)) :=
  .lines role _ code

theorem behindBlank (h : LaysOut code.blank after layout) : LaysOut code after (apart layout) :=
  (line .blank "" code).trans h

/-- Lines that are written further in, with the level taken back behind them, come under the line
in front of them. -/
theorem inside {text : String} (role : LineRole)
    (h : LaysOut (code.line text).indent after layout) :
    LaysOut code after.dedent (under role text layout) where
  level := by
    rw [Code.level_dedent, h.level, Code.level_indent, Code.level_line, Nat.add_sub_cancel]
  pieces := by
    have hdeeper : layout.map (LayoutLine.piece (code.level + 1)) =
        (layout.map LayoutLine.deeper).map (LayoutLine.piece code.level) := by
      rw [List.map_map]
      refine List.map_congr_left fun line _ => ?_
      rw [Function.comp_apply, LayoutLine.piece, LayoutLine.piece, LayoutLine.deeper,
        Nat.add_assoc, Nat.add_comm 1]
    calc after.pieces
      _ = (code.line text).pieces ++ layout.map (LayoutLine.piece (code.level + 1)) := by
        rw [h.pieces, Code.level_indent, Code.level_line]
        rfl
      _ = code.pieces ++ (under role text layout).map (LayoutLine.piece code.level) := by
        rw [(line role text code).pieces, hdeeper, List.append_assoc]
        rfl

theorem foldl {α : Type} {write : Code → α → Code} {layout : α → List LayoutLine}
    (h : ∀ (item : α) (code : Code), LaysOut code (write code item) (layout item))
    (items : List α) (code : Code) :
    LaysOut code (items.foldl write code) (items.flatMap layout) := by
  induction items generalizing code with
  | nil => exact nothing code
  | cons item items ih => exact (h item code).trans (ih _)

/-! ### Writers -/

theorem writeInstance (className name text : String) (code : Code) :
    LaysOut code (writeInstance className name text code) (instanceLayout className name text) :=
  .inside .instanceHead (.line .method text _)

theorem writeCaseInstance (className name head : String) (alternatives : List String)
    (code : Code) :
    LaysOut code (writeCaseInstance className name head alternatives code)
      (caseInstanceLayout className name head alternatives) :=
  .inside .instanceHead (.inside .method (.lines .alternative alternatives _))

theorem writeUnit (name : String) (code : Code) :
    LaysOut code (writeUnit name code) (unitLayout name) :=
  have htype := inside .typeHead (.line .derived "deriving (Show, Eq, Generic)"
    (code.line ("data " ++ name ++ " = " ++ name)).indent)
  (htype.trans (.behindBlank (.writeInstance _ _ _ _))).trans
    (.behindBlank (.writeInstance _ _ _ _))

theorem writeSelector (lead : String) (selector : Selector) (code : Code) :
    LaysOut code (writeSelector lead code selector) (selector.layout lead) := by
  obtain ⟨name, property, type, description⟩ := selector
  cases description with
  | none => exact .line .field _ code
  | some description => exact .inside .field (.comment .fieldDocumentation "-- ^" description _)

theorem writeSelectors (selectors : List Selector) (code : Code) :
    LaysOut code (writeSelectors selectors code) (selectorsLayout selectors) := by
  cases selectors with
  | nil => exact nothing code
  | cons first rest =>
    exact (writeSelector "\x7b" first code).trans (.foldl (writeSelector ",") rest _)

theorem options (options label : String) (code : Code) :
    LaysOut code (code.line (options ++ " :: Aeson.Options")
        |>.line (options ++ " =")
        |>.indent
        |>.line "Aeson.defaultOptions"
        |>.indent
        |>.line ("\x7b Aeson.fieldLabelModifier = " ++ label)
        |>.line ", Aeson.omitNothingFields = True"
        |>.line "\x7d"
        |>.dedent
        |>.dedent)
      (optionsLayout options label) :=
  (line .signature _ code).trans (.inside .equation (.inside .option (.lines .option
    ["\x7b Aeson.fieldLabelModifier = " ++ label, ", Aeson.omitNothingFields = True", "\x7d"] _)))

theorem label (label : String) (selectors : List Selector) (code : Code) :
    LaysOut code (code.line (label ++ " :: String -> String")
        |>.line (label ++ " label = case label of")
        |>.indent
        |>.lines (labelLines (selectors.map fun selector => (selector.name, selector.property)))
        |>.line "other -> other"
        |>.dedent)
      (labelLayout label selectors) :=
  (line .signature _ code).trans (.inside .equation
    ((lines .alternative _ _).trans (.line .alternative "other -> other" _)))

theorem writeRecord (name : String) (selectors : List Selector) (options label : String)
    (code : Code) :
    LaysOut code (writeRecord name selectors options label code)
      (recordLayout name selectors options label) := by
  have htype := inside .typeHead ((writeSelectors selectors
    (code.line ("data " ++ name ++ " = " ++ name)).indent).trans
      ((line .closing "\x7d" _).trans (.line .derived "deriving (Show, Eq, Generic)" _)))
  exact (((htype.trans (.behindBlank (.writeInstance _ _ _ _))).trans
    (.behindBlank (.writeInstance _ _ _ _))).trans (.behindBlank (.options options label _))).trans
      (.behindBlank (.label label selectors _))

theorem writeEnum (name title : String) (constructors : List (String × String)) (code : Code) :
    LaysOut code (writeEnum name title constructors code)
      (enumLayout name title constructors) := by
  have htype := inside .typeHead ((lines .constructor
    (constructorLines (constructors.map Prod.fst)) (code.line ("data " ++ name)).indent).trans
      (.line .derived "deriving (Show, Eq, Ord, Enum, Bounded, Generic)" _))
  exact (((htype.trans (.behindBlank (.writeCaseInstance _ _ _ _ _))).trans
    (.behindBlank (.writeCaseInstance _ _ _ _ _))).trans
      (.behindBlank (.writeInstance _ _ _ _))).trans (.behindBlank (.writeInstance _ _ _ _))

theorem writeUnionReader (name : String) (constructors : List (String × String))
    (discriminator : Option Discriminator) (code : Code) :
    LaysOut code (writeUnionReader name constructors discriminator code)
      (unionReaderLayout name constructors discriminator) := by
  cases discriminator with
  | some discriminator =>
    exact .inside .method ((line .method _ _).trans (.inside .method
      ((lines .alternative (tagLines constructors discriminator.mapping) _).trans
        (.line .alternative _ _))))
  | none => exact .inside .method (.lines .method (attemptLines constructors) _)

theorem writeUnion (name : String) (constructors : List (String × String))
    (discriminator : Option Discriminator) (code : Code) :
    LaysOut code (writeUnion name constructors discriminator code)
      (unionLayout name constructors discriminator) := by
  have htype := inside .typeHead ((lines .constructor
    (constructorLines (constructors.map fun (constructor, variant) =>
      constructor ++ " " ++ variant)) (code.line ("data " ++ name)).indent).trans
      (.line .derived "deriving (Show, Eq, Generic)" _))
  exact (htype.trans (.behindBlank (.writeCaseInstance _ _ _ _ _))).trans
    (.behindBlank (.inside .instanceHead (.writeUnionReader name constructors discriminator _)))

theorem writeNewtype (name : String) (type : DataType) (code : Code) :
    LaysOut code (writeNewtype name type code) (newtypeLayout name type) := by
  have htype := inside .typeHead (.line .derived "deriving (Show, Eq, Generic)"
    (code.line ("newtype " ++ name ++ " = " ++ name ++ " " ++ atomText type)).indent)
  have hjson := (htype.trans (.behindBlank (.writeInstance "FromJSON" name
    ("parseJSON json = " ++ name ++ " <$> parseJSON json") _))).trans
      (.behindBlank (.writeInstance "ToJSON" name
        ("toJSON (" ++ name ++ " inner) = toJSON inner") _))
  unfold Haskell.writeNewtype newtypeLayout
  split
  · exact hjson.trans ((behindBlank (.writeInstance _ _ _ _)).trans
      (.behindBlank (.writeInstance _ _ _ _)))
  · exact hjson.trans (.nothing _)

/-- A declaration is written as its layout, at whatever level, and leaves the level as it was. -/
theorem write (declaration : Declaration) (code : Code) :
    LaysOut code (declaration.write code) declaration.layout := by
  obtain ⟨name, description, body⟩ := declaration
  have hbody : ∀ code : Code,
      LaysOut code (Declaration.write ⟨name, none, body⟩ code) (body.layout name) := by
    intro code
    cases body with
    | unit => exact .writeUnit name code
    | record selectors options label => exact .writeRecord name selectors options label code
    | enum title constructors => exact .writeEnum name title constructors code
    | union constructors discriminator => exact .writeUnion name constructors discriminator code
    | newtype type => exact .writeNewtype name type code
  cases description with
  | none => exact hbody code
  | some description => exact (comment .documentation "-- |" description code).trans (hbody _)

end LaysOut

/-! ## Every line in its place -/

section InPlace

/-- No line of a comment is empty: each has its mark. -/
theorem ne_empty_of_mem_commentLines {mark : String} (hmark : mark ∈ commentMarks) (text : String) :
    ∀ line ∈ Code.commentLines mark "--" text, line ≠ "" := by
  rintro _ hline rfl
  exact absurd (isCommentPiece_of_mem_commentLines hmark (by decide) text _ hline 0) (by decide)

theorem ne_empty_of_mem_constructorLines (texts : List String) :
    ∀ line ∈ constructorLines texts, line ≠ "" := by
  rw [constructorLines_eq_marked]
  exact forall_mem_marked (by simp) (by simp)

/-- What holds of each attempt, also of one behind others, holds of the lines of all attempts. -/
theorem forall_mem_attemptLines {P : String → Prop} {constructors : List (String × String)}
    (hattempt : ∀ entry ∈ constructors, P ("(" ++ entry.1 ++ " <$> parseJSON json)"))
    (hbehind : ∀ attempt, P attempt → P ("  <|> " ++ attempt)) :
    ∀ line ∈ attemptLines constructors, P line := by
  cases constructors with
  | nil => simp [attemptLines]
  | cons first rest =>
    obtain ⟨hfirst, hrest⟩ := List.forall_mem_cons.1 hattempt
    refine List.forall_mem_cons.2 ⟨hfirst, List.forall_mem_map.2 ?_⟩
    exact List.forall_mem_map.2 fun entry hentry => hbehind _ (hrest entry hentry)

theorem ne_empty_of_mem_tagLines (constructors mapping : List (String × String)) :
    ∀ line ∈ tagLines constructors mapping, line ≠ "" := by
  rw [tagLines_eq_map]
  exact List.forall_mem_map.2 fun entry _ => by simp

theorem inPlace_instanceLayout {line : String} (className name : String) (h : line ≠ "") :
    ∀ own ∈ instanceLayout className name line, own.InPlace :=
  inPlace_under rfl (by simp [instanceHead]) (List.forall_mem_singleton.2 ⟨rfl, h⟩)

theorem inPlace_caseInstanceLayout {line : String} {alternatives : List String}
    (className name : String) (h : line ≠ "") (halternatives : ∀ own ∈ alternatives, own ≠ "") :
    ∀ own ∈ caseInstanceLayout className name line alternatives, own.InPlace :=
  inPlace_under rfl (by simp [instanceHead])
    (belongs_under rfl h (belongs_linesAs rfl halternatives))

theorem inPlace_unitLayout (name : String) : ∀ line ∈ unitLayout name, line.InPlace := by
  have htype := @inPlace_under .typeHead ("data " ++ name ++ " = " ++ name)
    [⟨.derived, 0, "deriving (Show, Eq, Generic)"⟩] rfl (by simp)
    (List.forall_mem_singleton.2 ⟨rfl, by simp⟩)
  simp only [unitLayout, List.forall_mem_append]
  exact ⟨⟨htype, inPlace_apart (inPlace_instanceLayout _ _ (by simp))⟩,
    inPlace_apart (inPlace_instanceLayout _ _ (by simp))⟩

theorem Selector.belongs_layout (lead : String) (selector : Selector) :
    ∀ line ∈ selector.layout lead, line.Belongs := by
  refine belongs_under rfl (by simp) ?_
  cases selector.description with
  | none => simp [commentLayout]
  | some text => exact belongs_linesAs rfl (ne_empty_of_mem_commentLines (by decide) text)

theorem belongs_selectorsLayout (selectors : List Selector) :
    ∀ line ∈ selectorsLayout selectors, line.Belongs := by
  cases selectors with
  | nil => simp [selectorsLayout]
  | cons first rest =>
    refine List.forall_mem_append.2 ⟨first.belongs_layout _, ?_⟩
    exact List.forall_mem_flatMap.2 fun selector _ => selector.belongs_layout _

theorem inPlace_optionsLayout (options label : String) :
    ∀ line ∈ optionsLayout options label, line.InPlace :=
  List.forall_mem_cons.2 ⟨inPlace_of_margin rfl (by simp), inPlace_under rfl (by simp)
    (belongs_under rfl (by simp) (belongs_linesAs rfl (by simp)))⟩

theorem inPlace_labelLayout (label : String) (selectors : List Selector) :
    ∀ line ∈ labelLayout label selectors, line.InPlace := by
  have hlabels : ∀ line ∈ labelLines (selectors.map fun selector =>
      (selector.name, selector.property)), line ≠ "" :=
    List.forall_mem_map.2 fun entry _ => by simp
  refine List.forall_mem_cons.2 ⟨inPlace_of_margin rfl (by simp), inPlace_under rfl (by simp) ?_⟩
  exact List.forall_mem_append.2 ⟨belongs_linesAs rfl hlabels,
    List.forall_mem_singleton.2 ⟨rfl, by simp⟩⟩

theorem inPlace_recordLayout (name : String) (selectors : List Selector) (options label : String) :
    ∀ line ∈ recordLayout name selectors options label, line.InPlace := by
  have hclosing : ∀ line ∈ [⟨.closing, 0, "\x7d"⟩, ⟨.derived, 0, "deriving (Show, Eq, Generic)"⟩],
      LayoutLine.Belongs line := by
    simp [LayoutLine.Belongs, LineRole.place]
  have htype : ∀ line ∈ under .typeHead ("data " ++ name ++ " = " ++ name)
      (selectorsLayout selectors ++ [⟨.closing, 0, "\x7d"⟩,
        ⟨.derived, 0, "deriving (Show, Eq, Generic)"⟩]), line.InPlace :=
    inPlace_under rfl (by simp) (List.forall_mem_append.2 ⟨belongs_selectorsLayout _, hclosing⟩)
  simp only [recordLayout, List.forall_mem_append]
  exact ⟨⟨⟨⟨htype, inPlace_apart (inPlace_instanceLayout _ _ (by simp))⟩,
    inPlace_apart (inPlace_instanceLayout _ _ (by simp))⟩,
    inPlace_apart (inPlace_optionsLayout _ _)⟩, inPlace_apart (inPlace_labelLayout _ _)⟩

/-- The type of an enumeration or a union: its constructors, and the classes that are derived. -/
theorem inPlace_sumType {derived : String} (name : String) (texts : List String)
    (hderived : derived ≠ "") : ∀ line ∈ under .typeHead ("data " ++ name)
      (linesAs .constructor (constructorLines texts) ++ [⟨.derived, 0, derived⟩]), line.InPlace :=
  inPlace_under rfl (by simp) (List.forall_mem_append.2
    ⟨belongs_linesAs rfl (ne_empty_of_mem_constructorLines texts),
      List.forall_mem_singleton.2 ⟨rfl, hderived⟩⟩)

theorem inPlace_enumLayout (name title : String) (constructors : List (String × String)) :
    ∀ line ∈ enumLayout name title constructors, line.InPlace := by
  simp only [enumLayout, List.forall_mem_append]
  refine ⟨⟨⟨⟨inPlace_sumType name _ (by simp),
    inPlace_apart (inPlace_caseInstanceLayout _ _ (by simp) ?shown)⟩,
    inPlace_apart (inPlace_caseInstanceLayout _ _ (by simp) ?read)⟩,
    inPlace_apart (inPlace_instanceLayout _ _ (by simp))⟩,
    inPlace_apart (inPlace_instanceLayout _ _ (by simp))⟩
  case shown => exact List.forall_mem_map.2 fun entry _ => by simp
  case read =>
    exact List.forall_mem_append.2 ⟨List.forall_mem_map.2 fun entry _ => by simp, by simp⟩

theorem belongs_unionReaderLayout (name : String) (constructors : List (String × String))
    (discriminator : Option Discriminator) :
    ∀ line ∈ unionReaderLayout name constructors discriminator, line.Belongs := by
  cases discriminator with
  | none =>
    exact belongs_under rfl (by simp)
      (belongs_linesAs rfl (forall_mem_attemptLines (by simp) (by simp)))
  | some discriminator =>
    refine belongs_under rfl (by simp) (List.forall_mem_cons.2 ⟨⟨rfl, by simp⟩,
      belongs_under rfl (by simp) (List.forall_mem_append.2 ⟨?_, ?_⟩)⟩)
    · exact belongs_linesAs rfl (ne_empty_of_mem_tagLines _ _)
    · exact List.forall_mem_singleton.2 ⟨rfl, by simp⟩

theorem inPlace_unionLayout (name : String) (constructors : List (String × String))
    (discriminator : Option Discriminator) :
    ∀ line ∈ unionLayout name constructors discriminator, line.InPlace := by
  simp only [unionLayout, List.forall_mem_append]
  refine ⟨⟨inPlace_sumType name _ (by simp),
    inPlace_apart (inPlace_caseInstanceLayout _ _ (by simp) ?shown)⟩,
    inPlace_apart (inPlace_under rfl (by simp [instanceHead]) (belongs_unionReaderLayout _ _ _))⟩
  case shown => exact List.forall_mem_map.2 fun entry _ => by simp

theorem inPlace_newtypeLayout (name : String) (type : DataType) :
    ∀ line ∈ newtypeLayout name type, line.InPlace := by
  have htype : ∀ line ∈ under .typeHead ("newtype " ++ name ++ " = " ++ name ++ " " ++
      atomText type) [⟨.derived, 0, "deriving (Show, Eq, Generic)"⟩], line.InPlace :=
    inPlace_under rfl (by simp) (List.forall_mem_singleton.2 ⟨rfl, by simp⟩)
  have hinstance : ∀ className line : String, line ≠ "" →
      ∀ own ∈ apart (instanceLayout className name line), own.InPlace := fun className line h =>
    inPlace_apart (inPlace_instanceLayout className name h)
  simp only [newtypeLayout, List.forall_mem_append]
  refine ⟨⟨⟨htype, hinstance _ _ (by simp)⟩, hinstance _ _ (by simp)⟩, ?_⟩
  split
  · exact List.forall_mem_append.2 ⟨hinstance _ _ (by simp), hinstance _ _ (by simp)⟩
  · simp

/-- Every line of a declaration stands where its role asks for. -/
theorem Declaration.inPlace_layout (declaration : Declaration) :
    ∀ line ∈ declaration.layout, line.InPlace := by
  obtain ⟨name, description, body⟩ := declaration
  refine List.forall_mem_append.2 ⟨?_, ?_⟩
  · cases description with
    | none => simp [commentLayout]
    | some text => exact inPlace_linesAs rfl (ne_empty_of_mem_commentLines (by decide) text)
  · cases body with
    | unit => exact inPlace_unitLayout name
    | record selectors options label => exact inPlace_recordLayout name selectors options label
    | enum title constructors => exact inPlace_enumLayout name title constructors
    | union constructors discriminator => exact inPlace_unionLayout name constructors discriminator
    | newtype type => exact inPlace_newtypeLayout name type

theorem TypesModule.inPlace_layout (types : TypesModule) : ∀ line ∈ types.layout, line.InPlace :=
  List.forall_mem_flatMap.2 fun declaration _ => inPlace_apart declaration.inPlace_layout

end InPlace

end ServantGen.Haskell
