import ServantGen.Proofs.Haskell.HandedNames
import ServantGen.Proofs.Haskell.WrittenLines

/-!
# What declarations of types are read as

A type of the generated code is written as the type itself with its constructors, instances of
classes and, for a record, two functions that tie its fields to properties. Each writer of the code
adds whole declarations, and their lexemes are known from the names of the type alone. In instances
no type is mentioned but that of the tag of a union.
-/

namespace ServantGen.Haskell

open Text (MadeOf OnOneLine)

/-! ## Types -/

structure HasCapitals (type : DataType) : Prop where
  models : ∀ name ∈ type.models, IsConstructorName name
  enums : ∀ entry ∈ type.enums, IsConstructorName entry.1

theorem HasCapitals.hasWords {type : DataType} (h : HasCapitals type) : HasWords type where
  models := fun name hname => (h.models name hname).word
  enums := fun entry hentry => (h.enums entry hentry).word

theorem reads_typeText {type : DataType} (h : HasCapitals type) :
    Reads false (typeText type) (lexemes (typeText type)) :=
  (phraseText_typeText h.hasWords).ends.reads (onOneLine_typeText h.hasWords)

theorem reads_atomText {type : DataType} (h : HasCapitals type) :
    Reads false (atomText type) (lexemes (atomText type)) :=
  (phraseText_atomText h.hasWords).ends.reads (onOneLine_atomText h.hasWords)

/-! ## Annotations -/

/-- The lexemes up to a bracket that closes more than is open. -/
def untilClosed : Nat → List String → List String
  | _, [] => []
  | depth, lexeme :: rest =>
    if closesBracket lexeme && depth == 0 then []
    else lexeme :: untilClosed (depthBehind depth lexeme) rest

/-- The types that are annotated: what stands behind each mark up to the end of its bracket. -/
def annotations : List String → List (List String)
  | [] => []
  | lexeme :: rest =>
    if lexeme = "::" then untilClosed 0 rest :: annotations rest else annotations rest

theorem annotations_append {first : List String} (h : "::" ∉ first) (rest : List String) :
    annotations (first ++ rest) = annotations rest := by
  induction first with
  | nil => rfl
  | cons lexeme first ih =>
    obtain ⟨hlexeme, hfirst⟩ := List.ne_and_not_mem_of_not_mem_cons h
    rw [List.cons_append, annotations, if_neg hlexeme.symm, ih hfirst]

theorem annotations_eq_nil {list : List String} (h : "::" ∉ list) : annotations list = [] := by
  have happend := annotations_append h []
  rwa [List.append_nil] at happend

/-! ## Instances -/

/-- An instance for a type, in which no types are annotated but allowed ones. -/
def IsInstance (name : String) (allowed : List (List String)) (list : List String) : Prop :=
  ∃ className body, list = "instance" :: className :: name :: "where" :: body ∧
    ∀ type ∈ annotations body, type ∈ allowed

/-- Nothing is annotated in an instance without the mark. -/
theorem isInstance_of_notMem {name className : String} {allowed : List (List String)}
    {body : List String} (h : "::" ∉ body) :
    IsInstance name allowed ("instance" :: className :: name :: "where" :: body) :=
  ⟨className, body, rfl, by simp [annotations_eq_nil h]⟩

def AddsInstances (name : String) (allowed : List (List String)) (code after : Code) : Prop :=
  ∃ instances, Adds code after instances ∧ ∀ own ∈ instances, IsInstance name allowed own

section Instances

variable {name className line : String} {allowed : List (List String)} {code middle after : Code}
  {whole : Bool}

theorem reads_instanceHead (hclass : className ∈ writtenClasses) (hname : IsWord name) :
    Reads false (instanceHead className name) ["instance", className, name, "where"] := by
  have hclasses : ∀ className ∈ writtenClasses, Reads true ("instance " ++ className ++ " ")
      ["instance", className] := by decide
  have hwhere : Reads false " where" ["where"] := by decide
  exact ((hclasses className hclass).behind hname.reads).append hwhere (by decide)

theorem begins_instanceHead (hclass : className ∈ writtenClasses) (hname : IsWord name) :
    beginsDeclaration (instanceHead className name) = true :=
  (reads_instanceHead hclass hname).begins (by simp) (by simp [instanceHead])

theorem Adds.instanceOf {body : List String} (hclass : className ∈ writtenClasses)
    (hname : IsWord name)
    (h : AddsInside (code.line (instanceHead className name)).indent after body) :
    Adds code after.dedent ["instance" :: className :: name :: "where" :: body] :=
  .declaration (reads_instanceHead hclass hname) (begins_instanceHead hclass hname) h

namespace AddsInstances

theorem blank (code : Code) : AddsInstances name allowed code code.blank :=
  ⟨[], .blank code, by simp⟩

theorem trans (h : AddsInstances name allowed code middle)
    (h' : AddsInstances name allowed middle after) : AddsInstances name allowed code after := by
  obtain ⟨instances, hadds, hown⟩ := h
  obtain ⟨others, hadds', hothers⟩ := h'
  exact ⟨_, hadds.trans hadds', List.forall_mem_append.2 ⟨hown, hothers⟩⟩

theorem ofBare (hclass : className ∈ writtenClasses) (hname : IsWord name)
    (h : AddsBare (code.line (instanceHead className name)).indent after) :
    AddsInstances name allowed code after.dedent := by
  obtain ⟨body, hinside, hmark⟩ := h
  exact ⟨_, .instanceOf hclass hname hinside,
    List.forall_mem_singleton.2 (isInstance_of_notMem hmark)⟩

theorem writeInstance (hclass : className ∈ writtenClasses) (hname : IsWord name)
    (hline : Bare whole line) :
    AddsInstances name allowed code (writeInstance className name line code) :=
  .ofBare hclass hname (.line hline)

theorem writeCaseInstance (hclass : className ∈ writtenClasses) (hname : IsWord name)
    (hline : Bare whole line) {alternatives : List String}
    (halternatives : ∀ alternative ∈ alternatives, ∃ whole, Bare whole alternative) :
    AddsInstances name allowed code
      (writeCaseInstance className name line alternatives code) :=
  .ofBare hclass hname ((AddsBare.line hline).trans (AddsBare.lines halternatives).deeper)

end AddsInstances

end Instances

/-! ## Lexemes of declarations -/

def DeclarationBody.types : DeclarationBody → List DataType
  | .unit | .enum .. => []
  | .record selectors _ _ => selectors.map Selector.type
  | .union constructors _ => constructors.map fun (_, variant) => .named variant
  | .newtype type => [type]

/-- There are fields in a record and constructors in a sum. -/
def DeclarationBody.IsFull : DeclarationBody → Prop
  | .unit | .newtype _ => True
  | .record selectors _ _ => selectors ≠ []
  | .enum _ constructors | .union constructors _ => constructors ≠ []

/-- The types that the instances of a declaration annotate. -/
def DeclarationBody.annotated : DeclarationBody → List (List String)
  | .union _ (some _) => [["Text"]]
  | _ => []

def Selector.phrase (selector : Selector) : List String :=
  selector.name :: "::" :: lexemes (typeText selector.type)

/-- The spelling of a name by its kind. No word of the language is a name of a value, since there
is more in a name than small letters. -/
def NameKind.IsSpelled : NameKind → String → Prop
  | .constructor, name => IsConstructorName name
  | .value, name => IsValueName name ∧ ¬ MadeOf Char.isLower name

namespace Declaration

/-- The word that a declaration begins with. -/
def keyword (declaration : Declaration) : String :=
  match declaration.body with
  | .newtype _ => "newtype"
  | _ => "data"

def alternatives (declaration : Declaration) : List (List String) :=
  match declaration.body with
  | .unit => [[declaration.name]]
  | .record selectors _ _ =>
    [declaration.name :: "\x7b" :: [","].intercalate (selectors.map Selector.phrase) ++ ["\x7d"]]
  | .enum _ constructors => constructors.map fun (constructor, _) => [constructor]
  | .union constructors _ => constructors.map fun (constructor, variant) => [constructor, variant]
  | .newtype type => [declaration.name :: lexemes (atomText type)]

def derived (declaration : Declaration) : List String :=
  match declaration.body with
  | .enum .. =>
    ["deriving", "(", "Show", ",", "Eq", ",", "Ord", ",", "Enum", ",", "Bounded", ",", "Generic",
      ")"]
  | _ => ["deriving", "(", "Show", ",", "Eq", ",", "Generic", ")"]

def typeDeclaration (declaration : Declaration) : List String :=
  declaration.keyword :: declaration.name :: "=" :: ["|"].intercalate declaration.alternatives ++
    declaration.derived

/-- The functions of a record as lexemes: its options, and its label function. -/
def functions (declaration : Declaration) : List (List String) :=
  match declaration.body with
  | .record selectors options label =>
    [[options, "::", "Aeson.Options"],
     [options, "=", "Aeson.defaultOptions", "\x7b", "Aeson.fieldLabelModifier", "=", label, ",",
      "Aeson.omitNothingFields", "=", "True", "\x7d"],
     [label, "::", "String", "->", "String"],
     label :: "label" :: "=" :: "case" :: "label" :: "of" ::
      (selectors.flatMap fun selector =>
        [literal selector.name, "->", literal selector.property]) ++
      ["other", "->", "other"]]
  | _ => []

def recordInstances (name options : String) : List (List String) :=
  [["instance", "FromJSON", name, "where", "parseJSON", "=", "Aeson.genericParseJSON", options],
   ["instance", "ToJSON", name, "where", "toJSON", "=", "Aeson.genericToJSON", options]]

/-- The alternatives of constructors as lexemes: each is sent to its text. -/
def shownCases (constructors : List (String × String)) : List String :=
  constructors.flatMap fun (constructor, value) => [constructor, "->", literal value]

/-- The alternatives of texts as lexemes: each is sent to its constructor. -/
def readCases (constructors : List (String × String)) : List String :=
  constructors.flatMap fun (constructor, value) => [literal value, "->", "Right", constructor]

/-- The alternative of all other texts as lexemes: a message about the text. -/
def rejection (title : String) : List String :=
  ["other", "->", "Left", "(", "\"unknown \"", "<>", literal title, "<>", "\": \"", "<>", "other",
    ")"]

/-- The instances of an enumeration as lexemes: the texts of its constructors, the constructors of
texts, and JSON by way of both. -/
def enumInstances (name title : String) (constructors : List (String × String)) :
    List (List String) :=
  ["instance" :: "ToHttpApiData" :: name :: "where" :: "toUrlPiece" :: "value" :: "=" :: "case" ::
      "value" :: "of" :: shownCases constructors,
   "instance" :: "FromHttpApiData" :: name :: "where" :: "parseUrlPiece" :: "text" :: "=" ::
      "case" :: "text" :: "of" :: (readCases constructors ++ rejection title),
   ["instance", "ToJSON", name, "where", "toJSON", "=", "Aeson.String", ".", "toUrlPiece"],
   ["instance", "FromJSON", name, "where", "parseJSON", "=", "Aeson.withText", literal title, "(",
      "either", "(", "fail", ".", "show", ")", "pure", ".", "parseUrlPiece", ")"]]

/-- The tags of a union with the constructors they select: a tag whose model no constructor wraps
selects none. -/
def selectedTags (constructors mapping : List (String × String)) : List (String × String) :=
  mapping.filterMap fun (tag, model) =>
    (constructors.find? fun (_, variant) => variant == model).map fun (constructor, _) =>
      (tag, constructor)

/-- The alternatives of constructors as lexemes: each passes on what it wraps. -/
def wrappedCases (constructors : List (String × String)) : List String :=
  constructors.flatMap fun (constructor, _) => [constructor, "inner", "->", "toJSON", "inner"]

/-- The alternatives of tags as lexemes: the object is read as what a constructor wraps. -/
def tagCases (selected : List (String × String)) : List String :=
  selected.flatMap fun (tag, constructor) =>
    [literal tag, "->", constructor, "<$>", "parseJSON", "(", "Aeson.Object", "object", ")"]

def unknownTag (name : String) : List String :=
  ["other", "->", "fail", "(", "\"" ++ ("unknown " ++ name ++ " tag: ") ++ "\"", "<>", "show",
    "other", ")"]

/-- The instances of a union with a tag as lexemes. -/
def taggedInstances (name : String) (constructors : List (String × String))
    (discriminator : Discriminator) : List (List String) :=
  ["instance" :: "ToJSON" :: name :: "where" :: "toJSON" :: "value" :: "=" :: "case" :: "value" ::
      "of" :: wrappedCases constructors,
   "instance" :: "FromJSON" :: name :: "where" :: "parseJSON" :: "=" :: "Aeson.withObject" ::
      literal name :: "$" :: "\\object" :: "->" :: "do" :: "tag" :: "<-" :: "object" ::
      "Aeson..:" :: literal discriminator.property :: "case" :: "(" :: "tag" :: "::" :: "Text" ::
      ")" :: "of" ::
      (tagCases (selectedTags constructors discriminator.mapping) ++ unknownTag name)]

structure WellNamed (declaration : Declaration) : Prop where
  name : IsConstructorName declaration.name
  names : ∀ entry ∈ declaration.body.names, entry.1.IsSpelled entry.2
  types : ∀ type ∈ declaration.body.types, HasCapitals type
  full : declaration.body.IsFull

/-- What is read of a declaration: the type, its instances and its functions. -/
structure IsReadAs (declaration : Declaration) (read instances : List (List String)) : Prop where
  read : read = declaration.typeDeclaration :: (instances ++ declaration.functions)
  annotated : ∀ own ∈ instances, IsInstance declaration.name declaration.body.annotated own
  record : ∀ selectors options label, declaration.body = .record selectors options label →
    instances = recordInstances declaration.name options
  enum : ∀ title constructors, declaration.body = .enum title constructors →
    instances = enumInstances declaration.name title constructors
  tagged : ∀ constructors discriminator,
    declaration.body = .union constructors (some discriminator) →
      instances = taggedInstances declaration.name constructors discriminator

end Declaration

/-! ## Writers -/

section Lines

variable {code : Code}

/-- A line for each item, whose lexemes are known. -/
theorem addsInside_map {α : Type} {items : List α} {whole : Bool} {line : α → String}
    {read : α → List String} (h : ∀ item ∈ items, Reads whole (line item) (read item)) :
    AddsInside code (code.lines (items.map line)) (items.flatMap read) := by
  have hread : (items.map line).flatMap lexemes = items.flatMap read := by
    rw [List.flatMap_map]
    exact List.flatMap_congr fun item hitem => (h item hitem).lexemes_eq
  rw [← hread]
  exact .lines (List.forall_mem_map.2 fun item hitem => ⟨(h item hitem).line, rfl⟩)

/-- A line for each item, with a mark of its own in front of the first. -/
theorem addsInside_marked {first rest opening mark : String} (hfirst : Reads true first [opening])
    (hrest : Reads true rest [mark]) {texts : List String} (hne : texts ≠ [])
    {read : String → List String} (h : ∀ text ∈ texts, Reads false text (read text)) :
    AddsInside code (code.lines (marked first rest texts))
      (opening :: [mark].intercalate (texts.map read)) := by
  cases texts with
  | nil => exact absurd rfl hne
  | cons text texts =>
    obtain ⟨htext, htexts⟩ := List.forall_mem_cons.1 h
    have hlines : AddsInside code (code.lines (marked first rest (text :: texts)))
        ((marked first rest (text :: texts)).flatMap lexemes) := by
      refine .lines (List.forall_mem_cons.2 ⟨⟨(hfirst.behind htext).line, rfl⟩, ?_⟩)
      exact List.forall_mem_map.2 fun own hown => ⟨(hrest.behind (htexts own hown)).line, rfl⟩
    have hothers : (texts.map (rest ++ ·)).flatMap lexemes =
        (texts.map read).flatMap (mark :: ·) := by
      rw [List.flatMap_map, List.flatMap_map]
      exact List.flatMap_congr fun own hown => (hrest.behind (htexts own hown)).lexemes_eq
    rw [marked, List.flatMap_cons, (hfirst.behind htext).lexemes_eq, hothers] at hlines
    rwa [List.map_cons, intercalate_cons]

theorem constructorLines_eq_marked (texts : List String) :
    constructorLines texts = marked "= " "| " texts := by
  cases texts <;> rfl

theorem addsInside_writeSelector {mark : String} (hmark : Reads true (mark ++ " ") [mark])
    {selector : Selector} (hname : IsWord selector.name) (htype : HasCapitals selector.type) :
    AddsInside code (writeSelector mark code selector) (mark :: selector.phrase) := by
  have hcolons : Reads true " :: " ["::"] := by decide
  have hline : AddsInside code (code.line (mark ++ " " ++ selector.name ++ " :: " ++
      typeText selector.type)) (mark :: selector.phrase) :=
    .line (((hmark.behind hname.reads).append hcolons (by decide)).behind (reads_typeText htype))
  unfold writeSelector
  dsimp only
  split
  · rename_i description _
    have hcomment : ∀ code : Code, AddsInside code (code.comment "-- ^" "--" description) [] :=
      AddsInside.comment (by decide) (by decide) description
    have hadds := hline.trans (hcomment _).deeper
    rwa [List.append_nil] at hadds
  · exact hline

theorem addsInside_writeSelectors {selectors : List Selector} (hne : selectors ≠ [])
    (h : ∀ selector ∈ selectors, IsWord selector.name ∧ HasCapitals selector.type) :
    AddsInside code (writeSelectors selectors code)
      ("\x7b" :: [","].intercalate (selectors.map Selector.phrase)) := by
  cases selectors with
  | nil => exact absurd rfl hne
  | cons first rest =>
    obtain ⟨hfirst, hrest⟩ := List.forall_mem_cons.1 h
    rw [List.map_cons, intercalate_cons, List.flatMap_map]
    refine (addsInside_writeSelector (by decide) hfirst.1 hfirst.2).trans (.foldl ?_)
    intro selector hselector code
    exact addsInside_writeSelector (by decide) (hrest selector hselector).1
      (hrest selector hselector).2

/-- Characters between quotes that neither end the literal nor escape one. -/
theorem reads_quoted {text : String}
    (h : MadeOf (fun c => c != '\\' && c != '"' && c != '\n') text) :
    Reads true ("\"" ++ text ++ "\"") ["\"" ++ text ++ "\""] := by
  have hinside : StaysInside text.toList := staysInside_of_ne fun c hc => by
    have hchar := h c hc
    simp only [Bool.and_eq_true, bne_iff_ne] at hchar
    exact hchar.1
  have hspells : Spells ("\"" ++ text ++ "\"") ["\"" ++ text ++ "\""] := by
    have hlist : ("\"" ++ text ++ "\"").toList = '"' :: (text.toList ++ ['"']) := by simp
    rw [Spells, hlist, Reading.scan]
    simp [Reading.start, Reading.step, Reading.scan_append, hinside ['"'], Reading.scan, isDashes,
      isWordChar, wordLexemes, ← String.toList_inj]
  have hline : OnOneLine ("\"" ++ text ++ "\"") := by
    simp only [Text.madeOf_append]
    refine ⟨⟨by decide, h.mono fun c hc => ?_⟩, by decide⟩
    exact (Bool.and_eq_true_iff.1 hc).2
  exact hspells.reads hline

/-- What stands between quotes is no mark of an annotation. -/
theorem quoted_ne_mark (text : String) : "\"" ++ text ++ "\"" ≠ "::" := by
  intro heq
  have hfirst := congrArg (fun word => word.toList.head?) heq
  simp at hfirst

end Lines

/-! ### Records -/

section Functions

variable {code : Code} {options label : String}

/-- A line that begins with a word begins a declaration. -/
theorem IsWord.begins {word rest : String} {list : List String} {whole : Bool} (h : IsWord word)
    (hreads : Reads whole (word ++ rest) (word :: list)) :
    beginsDeclaration (word ++ rest) = true := by
  refine hreads.begins (by simp) ?_
  obtain ⟨c, cs, hcs⟩ : ∃ c cs, word.toList = c :: cs :=
    List.exists_cons_of_ne_nil (by simpa using h.ne_empty)
  have hc := h.made c (hcs ▸ List.mem_cons_self)
  rw [String.toList_append, hcs, List.cons_append, List.head?_cons, ne_eq, Option.some.injEq]
  rintro rfl
  exact absurd hc (by decide)

theorem adds_options (hoptions : IsWord options) (hlabel : IsWord label) :
    Adds code (code.line (options ++ " :: Aeson.Options")
        |>.line (options ++ " =")
        |>.indent
        |>.line "Aeson.defaultOptions"
        |>.indent
        |>.line ("\x7b Aeson.fieldLabelModifier = " ++ label)
        |>.line ", Aeson.omitNothingFields = True"
        |>.line "\x7d"
        |>.dedent
        |>.dedent)
      [[options, "::", "Aeson.Options"],
       [options, "=", "Aeson.defaultOptions", "\x7b", "Aeson.fieldLabelModifier", "=", label, ",",
        "Aeson.omitNothingFields", "=", "True", "\x7d"]] := by
  have htype : Reads false " :: Aeson.Options" ["::", "Aeson.Options"] := by decide
  have hequals : Reads false " =" ["="] := by decide
  have hdefault : Reads false "Aeson.defaultOptions" ["Aeson.defaultOptions"] := by decide
  have hmodifier : Reads true "\x7b Aeson.fieldLabelModifier = "
      ["\x7b", "Aeson.fieldLabelModifier", "="] := by decide
  have homit : Reads false ", Aeson.omitNothingFields = True"
      [",", "Aeson.omitNothingFields", "=", "True"] := by decide
  have hclosing : Reads true "\x7d" ["\x7d"] := by decide
  have hsignature := hoptions.reads.append htype (by decide)
  have hdefinition := hoptions.reads.append hequals (by decide)
  have hadds := (@Adds.line code _ _ _ hsignature (hoptions.begins hsignature)).trans
    (.declaration hdefinition (hoptions.begins hdefinition) ((AddsInside.line hdefault).trans
      (((AddsInside.line (hmodifier.behind hlabel.reads)).trans (.line homit)).trans
        (.line hclosing)).deeper))
  exact hadds

theorem adds_label (hlabel : IsWord label) (selectors : List Selector) :
    Adds code (code.line (label ++ " :: String -> String")
        |>.line (label ++ " label = case label of")
        |>.indent
        |>.lines (labelLines (selectors.map fun selector => (selector.name, selector.property)))
        |>.line "other -> other"
        |>.dedent)
      [[label, "::", "String", "->", "String"],
       label :: "label" :: "=" :: "case" :: "label" :: "of" ::
        (selectors.flatMap fun selector =>
          [literal selector.name, "->", literal selector.property]) ++
        ["other", "->", "other"]] := by
  have htype : Reads false " :: String -> String" ["::", "String", "->", "String"] := by
    decide
  have hcase : Reads false " label = case label of" ["label", "=", "case", "label", "of"] := by
    decide
  have hother : Reads false "other -> other" ["other", "->", "other"] := by decide
  have harrow : Reads true " -> " ["->"] := by decide
  have hlines : ∀ code : Code, AddsInside code (code.lines (labelLines
      (selectors.map fun selector => (selector.name, selector.property))))
      (selectors.flatMap fun selector =>
        [literal selector.name, "->", literal selector.property]) := by
    intro code
    rw [labelLines, List.map_map]
    exact addsInside_map fun selector _ =>
      ((reads_literal selector.name).behind harrow).behind (reads_literal selector.property)
  have hsignature := hlabel.reads.append htype (by decide)
  have hdefinition := hlabel.reads.append hcase (by decide)
  have hadds := (@Adds.line code _ _ _ hsignature (hlabel.begins hsignature)).trans
    (.declaration hdefinition (hlabel.begins hdefinition) ((hlines _).trans (.line hother)))
  exact hadds

end Functions

theorem reads_deriving : Reads true "deriving (Show, Eq, Generic)"
    ["deriving", "(", "Show", ",", "Eq", ",", "Generic", ")"] := by
  decide

section Writers

variable {name : String} (hname : IsWord name) {code : Code} {allowed : List (List String)}
include hname

/-- The head of a type with one constructor that is named like it. -/
theorem reads_dataHead :
    Reads false ("data " ++ name ++ " = " ++ name) ["data", name, "=", name] := by
  have hdata : Reads true "data " ["data"] := by decide
  have hequals : Reads true " = " ["="] := by decide
  exact ((hdata.behind hname.reads).append hequals (by decide)).behind hname.reads

theorem begins_dataHead : beginsDeclaration ("data " ++ name ++ " = " ++ name) = true :=
  (reads_dataHead hname).begins (by simp) (by simp)

/-- A sum with a line for each constructor. -/
theorem adds_sum {texts : List String} (hne : texts ≠ []) {read : String → List String}
    (h : ∀ text ∈ texts, Reads false text (read text)) {last : String} {classes : List String}
    (hlast : Reads true last classes) :
    Adds code (code.line ("data " ++ name) |>.indent |>.lines (constructorLines texts)
        |>.line last |>.dedent)
      ["data" :: name :: "=" :: ["|"].intercalate (texts.map read) ++ classes] := by
  have hdata : Reads true "data " ["data"] := by decide
  have hhead := hdata.behind hname.reads
  have hequals : Reads true "= " ["="] := by decide
  have hbar : Reads true "| " ["|"] := by decide
  have hinside := (@addsInside_marked (code.line ("data " ++ name)).indent _ _ _ _ hequals hbar _
    hne _ h).trans (.line hlast)
  rw [← constructorLines_eq_marked] at hinside
  have hadds := Adds.declaration hhead (hhead.begins (by simp) (by simp)) hinside
  exact hadds

theorem adds_writeUnit : ∃ instances, Adds code (writeUnit name code)
    (["data", name, "=", name, "deriving", "(", "Show", ",", "Eq", ",", "Generic", ")"] ::
      instances) ∧ ∀ own ∈ instances, IsInstance name allowed own := by
  have hread : Bare true ("parseJSON = Aeson.withObject " ++ literal name ++ " (\\_ -> pure " ++
      name ++ ")") := by
    have hlead : Bare true "parseJSON = Aeson.withObject " := by decide
    have hpure : Bare true " (\\_ -> pure " := by decide
    have hclosing : Bare true ")" := by decide
    exact (((hlead.behind (bare_literal name)).behind hpure).behind hname.bare).append hclosing
      (by decide)
  have hwritten : Bare true "toJSON _ = Aeson.object []" := by decide
  have hinstances : ∀ code : Code, AddsInstances name allowed code (code.blank
      |> writeInstance "FromJSON" name
          ("parseJSON = Aeson.withObject " ++ literal name ++ " (\\_ -> pure " ++ name ++ ")")
      |>.blank
      |> writeInstance "ToJSON" name "toJSON _ = Aeson.object []") := fun code =>
    ((AddsInstances.blank code).trans (.writeInstance (by decide) hname hread)).trans
      ((AddsInstances.blank _).trans (.writeInstance (by decide) hname hwritten))
  obtain ⟨instances, hadds, hown⟩ := hinstances _
  refine ⟨instances, ?_, hown⟩
  exact (Adds.declaration (reads_dataHead hname) (begins_dataHead hname)
    (.line reads_deriving)).trans hadds

theorem adds_recordInstances {options : String} (hoptions : IsWord options) :
    Adds code (code.blank
        |> writeInstance "FromJSON" name ("parseJSON = Aeson.genericParseJSON " ++ options)
        |>.blank
        |> writeInstance "ToJSON" name ("toJSON = Aeson.genericToJSON " ++ options))
      (Declaration.recordInstances name options) := by
  have hread : Reads true "parseJSON = Aeson.genericParseJSON "
      ["parseJSON", "=", "Aeson.genericParseJSON"] := by decide
  have hwritten : Reads true "toJSON = Aeson.genericToJSON "
      ["toJSON", "=", "Aeson.genericToJSON"] := by decide
  exact ((Adds.blank code).trans
    (.instanceOf (by decide) hname (.line (hread.behind hoptions.reads)))).trans
      ((Adds.blank _).trans
        (.instanceOf (by decide) hname (.line (hwritten.behind hoptions.reads))))

omit hname in
theorem isInstance_recordInstances {options : String} (hoptions : IsWord options) :
    ∀ own ∈ Declaration.recordInstances name options, IsInstance name allowed own := by
  have hne := hoptions.ne_mark
  simp only [Declaration.recordInstances, List.forall_mem_cons, List.not_mem_nil, false_imp_iff,
    implies_true, and_true]
  constructor <;> exact isInstance_of_notMem (by simp [hne.symm])

theorem adds_writeRecord {selectors : List Selector} (hne : selectors ≠ [])
    (h : ∀ selector ∈ selectors, IsWord selector.name ∧ HasCapitals selector.type)
    {options label : String} (hoptions : IsWord options) (hlabel : IsWord label)
    (description : Option String) :
    let declaration : Declaration := ⟨name, description, .record selectors options label⟩
    Adds code (writeRecord name selectors options label code)
      (declaration.typeDeclaration ::
        (Declaration.recordInstances name options ++ declaration.functions)) := by
  intro declaration
  have hclosing : Reads true "\x7d" ["\x7d"] := by decide
  have htype : Adds code (code.line ("data " ++ name ++ " = " ++ name) |>.indent
      |> writeSelectors selectors |>.line "\x7d" |>.line "deriving (Show, Eq, Generic)" |>.dedent)
      [declaration.typeDeclaration] := by
    have hadds := @Adds.declaration code _ _ _ _ _ (reads_dataHead hname) (begins_dataHead hname)
      (((addsInside_writeSelectors hne h).trans (.line hclosing)).trans (.line reads_deriving))
    simpa [declaration, Declaration.typeDeclaration, Declaration.keyword, Declaration.alternatives,
      Declaration.derived, List.intercalate] using hadds
  exact htype.trans ((adds_recordInstances hname hoptions).trans
    (((Adds.blank _).trans (adds_options hoptions hlabel)).trans
    ((Adds.blank _).trans (adds_label hlabel selectors))))

section Enum

variable (title : String) {constructors : List (String × String)}

omit hname in
/-- The lines that send constructors to texts. -/
theorem addsInside_shownCases (h : ∀ entry ∈ constructors, IsWord entry.1) :
    AddsInside code (code.lines (constructors.map fun (constructor, value) =>
        constructor ++ " -> " ++ literal value))
      (Declaration.shownCases constructors) := by
  have harrow : Reads true " -> " ["->"] := by decide
  exact addsInside_map fun entry hentry =>
    ((h entry hentry).reads.append harrow (by decide)).behind (reads_literal entry.2)

omit hname in
/-- The lines that send texts to constructors, and the line that rejects all others. -/
theorem addsInside_readCases (h : ∀ entry ∈ constructors, IsWord entry.1) :
    AddsInside code (code.lines ((constructors.map fun (constructor, value) =>
        literal value ++ " -> Right " ++ constructor) ++
        ["other -> Left (\"unknown \" <> " ++ literal title ++ " <> \": \" <> other)"]))
      (Declaration.readCases constructors ++ Declaration.rejection title) := by
  have hright : Reads true " -> Right " ["->", "Right"] := by decide
  have hlead : Reads true "other -> Left (\"unknown \" <> "
      ["other", "->", "Left", "(", "\"unknown \"", "<>"] := by decide
  have htail : Reads true " <> \": \" <> other)" ["<>", "\": \"", "<>", "other", ")"] := by decide
  rw [Code.lines, List.foldl_append]
  exact (addsInside_map fun entry hentry =>
    ((reads_literal entry.2).behind hright).behind (h entry hentry).reads).trans
    (.line ((hlead.behind (reads_literal title)).behind htail))

/-- An instance whose method is a case expression. -/
theorem adds_writeCaseInstance {className head : String} (hclass : className ∈ writtenClasses)
    {whole : Bool} {list read : List String} (hhead : Reads whole head list)
    {alternatives : List String}
    (h : ∀ {code : Code}, AddsInside code (code.lines alternatives) read) :
    Adds code (writeCaseInstance className name head alternatives code)
      ["instance" :: className :: name :: "where" :: (list ++ read)] :=
  .instanceOf hclass hname ((AddsInside.line hhead).trans h.deeper)

theorem adds_enumInstances (h : ∀ entry ∈ constructors, IsWord entry.1) :
    Adds code (code.blank
      |> writeCaseInstance "ToHttpApiData" name "toUrlPiece value = case value of"
          (constructors.map fun (constructor, value) => constructor ++ " -> " ++ literal value)
      |>.blank
      |> writeCaseInstance "FromHttpApiData" name "parseUrlPiece text = case text of"
          ((constructors.map fun (constructor, value) =>
              literal value ++ " -> Right " ++ constructor) ++
            ["other -> Left (\"unknown \" <> " ++ literal title ++ " <> \": \" <> other)"])
      |>.blank
      |> writeInstance "ToJSON" name "toJSON = Aeson.String . toUrlPiece"
      |>.blank
      |> writeInstance "FromJSON" name ("parseJSON = Aeson.withText " ++ literal title ++
          " (either (fail . show) pure . parseUrlPiece)"))
      (Declaration.enumInstances name title constructors) := by
  have hvalue : Reads false "toUrlPiece value = case value of"
      ["toUrlPiece", "value", "=", "case", "value", "of"] := by decide
  have htext : Reads false "parseUrlPiece text = case text of"
      ["parseUrlPiece", "text", "=", "case", "text", "of"] := by decide
  have hwritten : Reads false "toJSON = Aeson.String . toUrlPiece"
      ["toJSON", "=", "Aeson.String", ".", "toUrlPiece"] := by decide
  have hlead : Reads true "parseJSON = Aeson.withText "
      ["parseJSON", "=", "Aeson.withText"] := by decide
  have htail : Reads true " (either (fail . show) pure . parseUrlPiece)"
      ["(", "either", "(", "fail", ".", "show", ")", "pure", ".", "parseUrlPiece", ")"] := by
    decide
  have hparsed := (hlead.behind (reads_literal title)).behind htail
  have hto := @adds_writeCaseInstance _ hname code.blank "ToHttpApiData" _ (by decide) _ _ _
    hvalue _ (addsInside_shownCases h)
  have hfrom := fun code : Code => @adds_writeCaseInstance _ hname code "FromHttpApiData" _
    (by decide) _ _ _ htext _ (addsInside_readCases title h)
  exact ((((Adds.blank code).trans hto).trans ((Adds.blank _).trans (hfrom _))).trans
    ((Adds.blank _).trans (.instanceOf (by decide) hname (.line hwritten)))).trans
    ((Adds.blank _).trans (.instanceOf (by decide) hname (.line hparsed)))

omit hname in
/-- Words and literals are no marks of annotations. -/
theorem isInstance_enumInstances (h : ∀ entry ∈ constructors, IsWord entry.1) :
    ∀ own ∈ Declaration.enumInstances name title constructors, IsInstance name allowed own := by
  have hwords : ∀ value, ("::", value) ∉ constructors := fun value hentry =>
    (h _ hentry).ne_mark rfl
  have hliterals := fun text => (literal_ne_mark text).symm
  simp only [Declaration.enumInstances, List.forall_mem_cons, List.not_mem_nil, false_imp_iff,
    implies_true, and_true]
  refine ⟨isInstance_of_notMem ?_, isInstance_of_notMem ?_, isInstance_of_notMem (by decide),
    isInstance_of_notMem ?_⟩
  · simp [Declaration.shownCases, hliterals, hwords]
  · simp [Declaration.readCases, Declaration.rejection, hliterals, hwords]
  · simp [hliterals]

theorem adds_writeEnum (hne : constructors ≠ []) (h : ∀ entry ∈ constructors, IsWord entry.1)
    (description : Option String) :
    let declaration : Declaration := ⟨name, description, .enum title constructors⟩
    Adds code (writeEnum name title constructors code)
      (declaration.typeDeclaration :: Declaration.enumInstances name title constructors) := by
  intro declaration
  have hderiving : Reads true "deriving (Show, Eq, Ord, Enum, Bounded, Generic)"
      ["deriving", "(", "Show", ",", "Eq", ",", "Ord", ",", "Enum", ",", "Bounded", ",",
        "Generic", ")"] := by decide
  have htype : Adds code (code.line ("data " ++ name) |>.indent
      |>.lines (constructorLines (constructors.map Prod.fst))
      |>.line "deriving (Show, Eq, Ord, Enum, Bounded, Generic)" |>.dedent)
      [declaration.typeDeclaration] := by
    have hadds := @adds_sum name hname code (constructors.map Prod.fst) (by simpa using hne)
      (fun text => [text]) (List.forall_mem_map.2 fun entry hentry => (h entry hentry).reads) _ _
      hderiving
    rw [List.map_map] at hadds
    exact hadds
  exact htype.trans (adds_enumInstances hname title h)

end Enum

section Union

variable {constructors : List (String × String)} (h : ∀ entry ∈ constructors, IsWord entry.1)
include h

/-- Without a tag the constructors are tried one by one. -/
theorem addsInstances_attempts :
    AddsInstances name allowed code (code.line (instanceHead "FromJSON" name) |>.indent
      |> writeUnionReader name constructors none |>.dedent) := by
  have hopening : Bare true "(" := by decide
  have hclosing : Bare true " <$> parseJSON json)" := by decide
  have hother : Bare true "  <|> " := by decide
  have hattempts : ∀ attempt ∈ constructors.map fun entry =>
      "(" ++ entry.1 ++ " <$> parseJSON json)", Bare true attempt :=
    List.forall_mem_map.2 fun entry hentry =>
      (hopening.behind (h entry hentry).bare).append hclosing (by decide)
  have hfirst : Bare false "parseJSON json =" := by decide
  have hclass : "FromJSON" ∈ writtenClasses := by decide
  refine .ofBare hclass hname ((AddsBare.line hfirst).trans (AddsBare.deeper ?_))
  refine .lines fun line hline => ⟨true, ?_⟩
  split at hline
  · simp at hline
  · rename_i first rest hcons
    rw [hcons] at hattempts
    obtain ⟨hown, hrest⟩ := List.forall_mem_cons.1 hattempts
    obtain rfl | hline := List.mem_cons.1 hline
    · exact hown
    · obtain ⟨attempt, hmem, rfl⟩ := List.mem_map.1 hline
      exact hother.behind (hrest attempt hmem)

omit hname h in
theorem tagLines_eq_map (mapping : List (String × String)) :
    tagLines constructors mapping = (Declaration.selectedTags constructors mapping).map
      fun (tag, constructor) =>
        literal tag ++ " -> " ++ constructor ++ " <$> parseJSON (Aeson.Object object)" := by
  rw [Declaration.selectedTags, List.map_filterMap, tagLines]
  refine List.filterMap_congr fun entry _ => ?_
  rw [Option.map_map]
  rfl

omit hname h in
/-- A selected tag is one of the mapping, and its constructor wraps the model of the tag. -/
theorem exists_of_mem_selectedTags {mapping : List (String × String)} {entry : String × String}
    (hentry : entry ∈ Declaration.selectedTags constructors mapping) :
    ∃ model, (entry.1, model) ∈ mapping ∧ (entry.2, model) ∈ constructors := by
  obtain ⟨⟨tag, model⟩, hmem, hfound⟩ := List.mem_filterMap.1 hentry
  obtain ⟨⟨constructor, variant⟩, hconstructor, rfl⟩ := Option.map_eq_some_iff.1 hfound
  obtain rfl : variant = model := by simpa using List.find?_some hconstructor
  exact ⟨variant, hmem, List.mem_of_find?_eq_some hconstructor⟩

/-- The lines that send tags to constructors, and the line about all other tags. -/
theorem addsInside_tagCases (mapping : List (String × String)) :
    AddsInside code (code.lines (tagLines constructors mapping)
        |>.line ("other -> fail (\"unknown " ++ name ++ " tag: \" <> show other)"))
      (Declaration.tagCases (Declaration.selectedTags constructors mapping) ++
        Declaration.unknownTag name) := by
  have harrow : Reads true " -> " ["->"] := by decide
  have htail : Reads true " <$> parseJSON (Aeson.Object object)"
      ["<$>", "parseJSON", "(", "Aeson.Object", "object", ")"] := by decide
  have hlead : Reads true "other -> fail (" ["other", "->", "fail", "("] := by decide
  have hshow : Reads true " <> show other)" ["<>", "show", "other", ")"] := by decide
  have hchars : MadeOf (fun c => c != '\\' && c != '"' && c != '\n')
      ("unknown " ++ name ++ " tag: ") := by
    simp only [Text.madeOf_append]
    refine ⟨⟨by decide, hname.made.mono fun c hc => ?_⟩, by decide⟩
    rw [Bool.and_eq_true, Bool.and_eq_true, bne_iff_ne, bne_iff_ne, bne_iff_ne]
    refine ⟨⟨?_, ?_⟩, ?_⟩ <;> rintro rfl <;> exact absurd hc (by decide)
  have htext : "other -> fail (\"unknown " ++ name ++ " tag: \" <> show other)" =
      "other -> fail (" ++ ("\"" ++ ("unknown " ++ name ++ " tag: ") ++ "\"") ++
        " <> show other)" := by
    simp [← String.toList_inj]
  rw [tagLines_eq_map, htext]
  refine AddsInside.trans (@addsInside_map code _ _ true _ _ fun entry hentry => ?_)
    (.line ((hlead.behind (reads_quoted hchars)).behind hshow))
  obtain ⟨model, -, hconstructor⟩ := exists_of_mem_selectedTags hentry
  exact (((reads_literal entry.1).behind harrow).behind (h _ hconstructor).reads).append htail
    (by decide)

/-- With a tag the instances are known, down to the alternative of each tag. -/
theorem adds_taggedInstances (discriminator : Discriminator) :
    Adds code (code.blank
      |> writeCaseInstance "ToJSON" name "toJSON value = case value of"
          (constructors.map fun (constructor, _) => constructor ++ " inner -> toJSON inner")
      |>.blank
      |>.line (instanceHead "FromJSON" name)
      |>.indent
      |> writeUnionReader name constructors (some discriminator)
      |>.dedent)
      (Declaration.taggedInstances name constructors discriminator) := by
  have hvalue : Reads false "toJSON value = case value of"
      ["toJSON", "value", "=", "case", "value", "of"] := by decide
  have hinner : Reads false " inner -> toJSON inner" ["inner", "->", "toJSON", "inner"] := by decide
  have hlead : Reads true "parseJSON = Aeson.withObject "
      ["parseJSON", "=", "Aeson.withObject"] := by decide
  have hdo : Reads false " $ \\object -> do" ["$", "\\object", "->", "do"] := by decide
  have htag : Reads true "tag <- object Aeson..: " ["tag", "<-", "object", "Aeson..:"] := by decide
  have hcase :
      Reads false "case (tag :: Text) of" ["case", "(", "tag", "::", "Text", ")", "of"] := by
    decide
  have hshown : ∀ {code : Code}, AddsInside code (code.lines (constructors.map
      fun (constructor, _) => constructor ++ " inner -> toJSON inner"))
      (Declaration.wrappedCases constructors) :=
    addsInside_map fun entry hentry => (h entry hentry).reads.append hinner (by decide)
  have hwritten := @adds_writeCaseInstance _ hname code.blank "ToJSON" _ (by decide) _ _ _
    hvalue _ hshown
  have hread := fun code : Code =>
    (@AddsInside.line code _ _ _ ((hlead.behind (reads_literal name)).behind hdo)).trans
      ((AddsInside.line (htag.behind (reads_literal discriminator.property))).trans
        ((AddsInside.line hcase).trans
          (addsInside_tagCases hname h discriminator.mapping).deeper)).deeper
  exact ((Adds.blank code).trans hwritten).trans
    ((Adds.blank _).trans (.instanceOf (by decide) hname (hread _)))

omit hname in
/-- With a tag the only annotation is that the tag is a text. -/
theorem isInstance_taggedInstances (discriminator : Discriminator) :
    ∀ own ∈ Declaration.taggedInstances name constructors discriminator,
      IsInstance name [["Text"]] own := by
  have hliterals := fun text => (literal_ne_mark text).symm
  have hquoted := fun text => (quoted_ne_mark text).symm
  have hwords : ∀ entry ∈ constructors, "::" ≠ entry.1 := fun entry hentry heq =>
    (h entry hentry).ne_mark heq.symm
  have hshown : "::" ∉ "toJSON" :: "value" :: "=" :: "case" :: "value" :: "of" ::
      Declaration.wrappedCases constructors := by
    simp only [Declaration.wrappedCases, List.mem_cons, List.mem_flatMap, not_or, not_exists,
      not_and]
    refine ⟨by decide, by decide, by decide, by decide, by decide, by decide, ?_⟩
    intro entry hentry
    simp [hwords entry hentry]
  have hcases : "::" ∉ Declaration.tagCases
      (Declaration.selectedTags constructors discriminator.mapping) ++
        Declaration.unknownTag name := by
    simp only [Declaration.tagCases, Declaration.unknownTag, List.mem_append, List.mem_flatMap,
      not_or, not_exists, not_and]
    refine ⟨fun entry hentry => ?_, ?_⟩
    · obtain ⟨model, -, hconstructor⟩ := exists_of_mem_selectedTags hentry
      simp [hliterals, hwords _ hconstructor]
    · simp [hquoted ("unknown " ++ name ++ " tag: ")]
  simp only [Declaration.taggedInstances, List.forall_mem_cons, List.not_mem_nil, false_imp_iff,
    implies_true, and_true]
  refine ⟨⟨_, _, rfl, by simp [annotations_eq_nil hshown]⟩, ⟨_, _, rfl, ?_⟩⟩
  have hdepth : depthBehind 0 "Text" = 0 := by decide
  simp [annotations, untilClosed, annotations_eq_nil hcases, closesBracket, brackets, hdepth,
    literal_ne_mark]

/-- The instances of a union, which annotate nothing but a tag. -/
theorem adds_unionInstances (discriminator : Option Discriminator) :
    ∃ instances, Adds code (code.blank
      |> writeCaseInstance "ToJSON" name "toJSON value = case value of"
          (constructors.map fun (constructor, _) => constructor ++ " inner -> toJSON inner")
      |>.blank
      |>.line (instanceHead "FromJSON" name)
      |>.indent
      |> writeUnionReader name constructors discriminator
      |>.dedent) instances ∧
      (∀ own ∈ instances,
        IsInstance name (DeclarationBody.union constructors discriminator).annotated own) ∧
      ∀ own, discriminator = some own →
        instances = Declaration.taggedInstances name constructors own := by
  cases discriminator with
  | none =>
    have hinner : Bare false " inner -> toJSON inner" := by decide
    have hshown : ∀ line ∈ constructors.map fun (constructor, _) =>
        constructor ++ " inner -> toJSON inner", ∃ whole, Bare whole line :=
      List.forall_mem_map.2 fun entry hentry =>
        ⟨_, (h entry hentry).bare.append hinner (by decide)⟩
    have hvalue : Bare false "toJSON value = case value of" := by decide
    have hclass : "ToJSON" ∈ writtenClasses := by decide
    obtain ⟨instances, hadds, hown⟩ := ((AddsInstances.blank code).trans
      (.writeCaseInstance hclass hname hvalue hshown)).trans
        ((AddsInstances.blank _).trans (addsInstances_attempts hname h))
    exact ⟨instances, hadds, hown, by simp⟩
  | some discriminator =>
    refine ⟨_, adds_taggedInstances hname h discriminator,
      isInstance_taggedInstances h discriminator, ?_⟩
    rintro _ ⟨⟩
    rfl

end Union

theorem adds_writeUnion {constructors : List (String × String)} (hne : constructors ≠ [])
    (h : ∀ entry ∈ constructors, IsWord entry.1 ∧ IsWord entry.2)
    (discriminator : Option Discriminator) (description : Option String) :
    let declaration : Declaration := ⟨name, description, .union constructors discriminator⟩
    ∃ instances, Adds code (writeUnion name constructors discriminator code)
      (declaration.typeDeclaration :: instances) ∧
        (∀ own ∈ instances, IsInstance name declaration.body.annotated own) ∧
        ∀ own, discriminator = some own →
          instances = Declaration.taggedInstances name constructors own := by
  intro declaration
  have hblank : Reads true " " [] := by decide
  have htexts : ∀ entry ∈ constructors, Reads false (entry.1 ++ " " ++ entry.2)
      [entry.1, entry.2] := fun entry hentry =>
    ((h entry hentry).1.reads.append hblank (by decide)).behind (h entry hentry).2.reads
  have htype : Adds code (code.line ("data " ++ name) |>.indent
      |>.lines (constructorLines (constructors.map fun (constructor, variant) =>
          constructor ++ " " ++ variant))
      |>.line "deriving (Show, Eq, Generic)" |>.dedent)
      [declaration.typeDeclaration] := by
    have hadds := @adds_sum name hname code
      (constructors.map fun (constructor, variant) => constructor ++ " " ++ variant)
      (by simpa using hne)
      lexemes (List.forall_mem_map.2 fun entry hentry =>
        (htexts entry hentry).endsPlainly.reads (htexts entry hentry).line) _ _ reads_deriving
    have hread : (constructors.map fun (constructor, variant) =>
        constructor ++ " " ++ variant).map lexemes = declaration.alternatives := by
      rw [List.map_map]
      exact List.map_congr_left fun entry hentry => (htexts entry hentry).lexemes_eq
    rw [hread] at hadds
    exact hadds
  obtain ⟨instances, hadds, hown, htagged⟩ :=
    adds_unionInstances hname (fun entry hentry => (h entry hentry).1) discriminator
  exact ⟨instances, htype.trans hadds, hown, htagged⟩

theorem adds_writeNewtype {type : DataType} (htype : HasCapitals type)
    (description : Option String) :
    let declaration : Declaration := ⟨name, description, .newtype type⟩
    ∃ instances, Adds code (writeNewtype name type code)
      (declaration.typeDeclaration :: instances) ∧
        ∀ own ∈ instances, IsInstance name allowed own := by
  intro declaration
  have hnewtype : Reads true "newtype " ["newtype"] := by decide
  have hequals : Reads true " = " ["="] := by decide
  have hblank : Reads true " " [] := by decide
  have hhead : Reads false ("newtype " ++ name ++ " = " ++ name ++ " " ++ atomText type)
      ("newtype" :: name :: "=" :: name :: lexemes (atomText type)) :=
    (((((hnewtype.behind hname.reads).append hequals (by decide)).behind hname.reads).append
      hblank (by decide))).behind (reads_atomText htype)
  have hdata : Adds code (code.line ("newtype " ++ name ++ " = " ++ name ++ " " ++ atomText type)
      |>.indent |>.line "deriving (Show, Eq, Generic)" |>.dedent)
      [declaration.typeDeclaration] := by
    have hadds := @Adds.declaration code _ _ _ _ _ hhead (hhead.begins (by simp) (by simp))
      (.line reads_deriving)
    simpa [declaration, Declaration.typeDeclaration, Declaration.keyword, Declaration.alternatives,
      Declaration.derived, List.intercalate] using hadds
  have hparse : ∀ lead tail : String, Bare true lead → Bare false tail → StartsApart tail →
      Bare false (lead ++ name ++ tail) := fun lead tail hlead htail hapart =>
    (hlead.behind hname.bare).append htail hapart
  have hread := hparse "parseJSON json = " " <$> parseJSON json" (by decide)
    (by decide) (by decide)
  have hshown := hparse "toJSON (" " inner) = toJSON inner" (by decide)
    (by decide) (by decide)
  have hpiece := hparse "parseUrlPiece piece = " " <$> parseUrlPiece piece" (by decide)
    (by decide) (by decide)
  have hurl := hparse "toUrlPiece (" " inner) = toUrlPiece inner" (by decide)
    (by decide) (by decide)
  obtain ⟨instances, hadds, hown⟩ : AddsInstances name allowed
      (code.line ("newtype " ++ name ++ " = " ++ name ++ " " ++ atomText type) |>.indent
        |>.line "deriving (Show, Eq, Generic)" |>.dedent) (writeNewtype name type code) := by
    have hjson : ∀ code : Code, AddsInstances name allowed code (code.blank
        |> writeInstance "FromJSON" name ("parseJSON json = " ++ name ++ " <$> parseJSON json")
        |>.blank
        |> writeInstance "ToJSON" name ("toJSON (" ++ name ++ " inner) = toJSON inner")) :=
      fun code => ((AddsInstances.blank code).trans (.writeInstance (by decide) hname hread)).trans
        ((AddsInstances.blank _).trans (.writeInstance (by decide) hname hshown))
    unfold writeNewtype
    dsimp only
    split
    · exact (hjson _).trans (((AddsInstances.blank _).trans
        (.writeInstance (by decide) hname hpiece)).trans
        ((AddsInstances.blank _).trans (.writeInstance (by decide) hname hurl)))
    · exact hjson _
  exact ⟨instances, hdata.trans hadds, hown⟩

end Writers

/-! ### All declarations -/

theorem isWord_of_isSpelled {kind : NameKind} {name : String} (h : kind.IsSpelled name) :
    IsWord name := by
  cases kind with
  | constructor => exact h.word
  | value => exact h.1.word

/-- A description stands before its declaration as a comment. -/
theorem Declaration.exists_commented (declaration : Declaration) (code : Code) :
    ∃ commented, Adds code commented [] ∧ declaration.write code =
      Declaration.write ⟨declaration.name, none, declaration.body⟩ commented := by
  obtain ⟨name, description, body⟩ := declaration
  cases description with
  | none => exact ⟨code, .nothing code, rfl⟩
  | some description => exact ⟨_, .comment (by decide) (by decide) description code, rfl⟩

/-- Writing a declaration adds the type, its instances and its functions. -/
theorem Declaration.WellNamed.adds_write {declaration : Declaration} (h : declaration.WellNamed)
    (code : Code) : ∃ read, Adds code (declaration.write code) read ∧
      ∃ instances, declaration.IsReadAs read instances := by
  have hname := h.name.word
  obtain ⟨commented, hcomment, hwrite⟩ := declaration.exists_commented code
  rw [hwrite]
  obtain ⟨name, description, body⟩ := declaration
  obtain ⟨-, hnames, htypes, hfull⟩ := h
  have hwords : ∀ entry ∈ body.names, IsWord entry.2 := fun entry hentry =>
    isWord_of_isSpelled (hnames entry hentry)
  cases body with
  | unit =>
    obtain ⟨instances, hadds, hown⟩ := adds_writeUnit hname
    exact ⟨_, hcomment.trans hadds, instances, {
      read := congrArg (List.cons _) (List.append_nil instances).symm
      annotated := hown
      record := by simp
      enum := by simp
      tagged := by simp }⟩
  | record selectors options label =>
    have hoptions : IsWord options := hwords (.value, options) (by simp [DeclarationBody.names])
    have hlabel : IsWord label := hwords (.value, label) (by simp [DeclarationBody.names])
    have hselectors : ∀ selector ∈ selectors, IsWord selector.name ∧ HasCapitals selector.type :=
      fun selector hselector =>
        ⟨hwords (.value, selector.name)
            (List.mem_append_left _ (List.mem_map.2 ⟨_, hselector, rfl⟩)),
          htypes _ (List.mem_map_of_mem hselector)⟩
    have hadds : Adds commented (writeRecord name selectors options label commented) _ :=
      adds_writeRecord hname hfull hselectors hoptions hlabel description
    exact ⟨_, hcomment.trans hadds, Declaration.recordInstances name options, {
      read := rfl
      annotated := isInstance_recordInstances hoptions
      record := by
        rintro _ _ _ ⟨⟩
        rfl
      enum := by simp
      tagged := by simp }⟩
  | enum title constructors =>
    have hentries : ∀ entry ∈ constructors, IsWord entry.1 := fun entry hentry =>
      hwords (.constructor, entry.1) (List.mem_map.2 ⟨entry, hentry, rfl⟩)
    have hadds : Adds commented (writeEnum name title constructors commented) _ :=
      adds_writeEnum hname title hfull hentries description
    exact ⟨_, hcomment.trans hadds, Declaration.enumInstances name title constructors, {
      read := congrArg (List.cons _) (List.append_nil _).symm
      annotated := isInstance_enumInstances title hentries
      record := by simp
      enum := by
        rintro _ _ ⟨⟩
        rfl
      tagged := by simp }⟩
  | union constructors discriminator =>
    have hentries : ∀ entry ∈ constructors, IsWord entry.1 ∧ IsWord entry.2 :=
      fun entry hentry => ⟨hwords (.constructor, entry.1) (List.mem_map.2 ⟨entry, hentry, rfl⟩),
        ((htypes _ (List.mem_map_of_mem hentry)).models entry.2 List.mem_cons_self).word⟩
    obtain ⟨instances, hadds, hown, htagged⟩ :=
      adds_writeUnion hname hfull hentries discriminator description
    exact ⟨_, hcomment.trans hadds, instances, {
      read := congrArg (List.cons _) (List.append_nil instances).symm
      annotated := hown
      record := by simp
      enum := by simp
      tagged := by
        rintro _ own ⟨⟩
        exact htagged own rfl }⟩
  | newtype type =>
    obtain ⟨instances, hadds, hown⟩ :=
      adds_writeNewtype hname (htypes type List.mem_cons_self) description
    exact ⟨_, hcomment.trans hadds, instances, {
      read := congrArg (List.cons _) (List.append_nil instances).symm
      annotated := hown
      record := by simp
      enum := by simp
      tagged := by simp }⟩

end ServantGen.Haskell
