import Mathlib.Data.List.Pairwise
import ServantGen.Proofs.Haskell.Literals
import ServantGen.Proofs.Haskell.Server
import ServantGen.Proofs.Haskell.TypesText

/-!
# Reading the module of types

A reader of the module of types finds each type with its constructors and fields, the functions
that are defined, and the property of a field: an instance for JSON names options, the options name
a label function, and the label function is a case expression of which the first alternative counts.
What is read are the declarations that were written, and a look-up by name finds one of them.
-/

namespace ServantGen.Haskell

/-! ## Names in types -/

/-- The types that are there without an import. -/
def preludeTypes : List String :=
  ["Int", "Integer", "Float", "Double", "Bool", "Maybe"]

def typeBrackets : List String :=
  ["(", ")", "[", "]"]

inductive Mentions (type : DataType) : String → Prop
  | bracket {lexeme : String} (h : lexeme ∈ typeBrackets) : Mentions type lexeme
  | prelude {name : String} (h : name ∈ preludeTypes) : Mentions type name
  | imported {own : Import} (h : own ∈ typeImports type) : Mentions type own.name
  | model {name : String} (h : name ∈ type.models) : Mentions type name
  | enum {entry : String × List String} (h : entry ∈ type.enums) : Mentions type entry.1

section Mentions

variable {type inner : DataType}

/-- What is mentioned inside of a type is mentioned. -/
theorem Mentions.outside (himports : typeImports inner ⊆ typeImports type)
    (hmodels : inner.models ⊆ type.models) (henums : inner.enums ⊆ type.enums) {lexeme : String}
    (h : Mentions inner lexeme) : Mentions type lexeme := by
  cases h with
  | bracket h => exact .bracket h
  | prelude h => exact .prelude h
  | imported h => exact .imported (himports h)
  | model h => exact .model (hmodels h)
  | enum h => exact .enum (henums h)

theorem mentions_of_mem_primitiveName (kind : Primitive) :
    Mentions (.primitive kind) (primitiveName kind) := by
  have himports : ∀ own ∈ primitiveImports kind, own ∈ typeImports (.primitive kind) := by
    simp [typeImports, DataType.parts]
  cases kind <;> first
    | exact .prelude (by decide)
    | exact .imported (himports _ List.mem_cons_self)

theorem mem_lexemes_asArgument {text lexeme : String} (h : EndsPlainly text)
    (hmem : lexeme ∈ lexemes (asArgument text)) :
    lexeme ∈ typeBrackets ∨ lexeme ∈ lexemes text := by
  obtain heq | heq := lexemes_asArgument h
  · exact .inr (heq ▸ hmem)
  · rw [heq] at hmem
    simp only [List.cons_append, List.mem_cons, List.mem_append, List.not_mem_nil, or_false] at hmem
    obtain rfl | hmem | rfl := hmem
    · exact .inl (by decide)
    · exact .inr hmem
    · exact .inl (by decide)

/-- Every lexeme of a type is a bracket, or a name that comes from somewhere. -/
theorem mentions_of_mem_lexemes (h : HasWords type) :
    ∀ lexeme ∈ lexemes (typeText type), Mentions type lexeme := by
  have hargument : ∀ inner outer : DataType, HasWords inner →
      (∀ lexeme ∈ lexemes (typeText inner), Mentions inner lexeme) →
      typeImports inner ⊆ typeImports outer → inner.models ⊆ outer.models →
      inner.enums ⊆ outer.enums →
      ∀ lexeme ∈ lexemes (asArgument (typeText inner)), Mentions outer lexeme := by
    intro inner outer hinner ih himports hmodels henums lexeme hmem
    obtain hbracket | hmem := mem_lexemes_asArgument (phraseText_typeText hinner).ends hmem
    · exact .bracket hbracket
    · exact (ih lexeme hmem).outside himports hmodels henums
  induction type with
  | primitive kind =>
    rw [typeText, (isWord_primitiveName kind).lexemes_eq, List.forall_mem_singleton]
    exact mentions_of_mem_primitiveName kind
  | named name =>
    rw [typeText, (h.models name List.mem_cons_self).lexemes_eq, List.forall_mem_singleton]
    exact .model List.mem_cons_self
  | enum name values =>
    rw [typeText, (h.enums (name, values) List.mem_cons_self).lexemes_eq,
      List.forall_mem_singleton]
    exact @Mentions.enum _ (name, values) List.mem_cons_self
  | array item ih =>
    have hitem : HasWords item := ⟨h.models, h.enums⟩
    rw [typeText, (spells_bracketed (phraseText_typeText hitem).ends (by decide)).lexemes_eq,
      List.cons_append, List.forall_mem_cons, List.forall_mem_append, List.forall_mem_singleton]
    refine ⟨.bracket (by decide), fun lexeme hmem => ?_, .bracket (by decide)⟩
    exact @Mentions.outside (.array item) item (fun _ => id) (fun _ => id) (fun _ => id) lexeme
      (ih hitem lexeme hmem)
  | map value ih =>
    have hvalue : HasWords value := ⟨h.models, h.enums⟩
    rw [typeText, spells_map.lexemes_append, List.cons_append, List.cons_append, List.nil_append,
      List.forall_mem_cons, List.forall_mem_cons]
    refine ⟨@Mentions.imported _ ⟨"Data.Map.Strict", "Map"⟩ (by simp [typeImports, DataType.parts]),
      @Mentions.imported _ ⟨"Data.Text", "Text"⟩ (by simp [typeImports, DataType.parts]), ?_⟩
    exact hargument _ _ hvalue (ih hvalue) (List.subset_append_right _ _) (fun _ => id) fun _ => id
  | optional inner ih =>
    have hinner : HasWords inner := ⟨h.models, h.enums⟩
    rw [typeText, spells_maybe.lexemes_append, List.cons_append, List.nil_append,
      List.forall_mem_cons]
    refine ⟨.prelude (by decide), ?_⟩
    exact hargument _ _ hinner (ih hinner) (fun _ => id) (fun _ => id) fun _ => id

theorem mentions_of_mem_lexemes_atomText (h : HasWords type) {lexeme : String}
    (hmem : lexeme ∈ lexemes (atomText type)) : Mentions type lexeme := by
  obtain hbracket | hmem := mem_lexemes_asArgument (phraseText_typeText h).ends hmem
  · exact .bracket hbracket
  · exact mentions_of_mem_lexemes h lexeme hmem

/-- In a type stand brackets and capital names only. -/
theorem Mentions.isConstructorName {lexeme : String} (hmentions : Mentions type lexeme)
    (h : HasCapitals type) : lexeme ∈ typeBrackets ∨ IsConstructorName lexeme := by
  cases hmentions with
  | bracket hbracket => exact .inl hbracket
  | prelude hname =>
    have hprelude : ∀ name ∈ preludeTypes, IsConstructorName name := by decide
    exact .inr (hprelude _ hname)
  | imported hown =>
    have hcapitals : ∀ own ∈ libraryImports, IsConstructorName own.name := by decide
    exact .inr (hcapitals _ (typeImports_subset type hown))
  | model hname => exact .inr (h.models _ hname)
  | enum hentry => exact .inr (h.enums _ hentry)

end Mentions

/-! ## Types and constructors -/

structure ReadConstructor where
  name : String
  fields : List (String × List String)
  arguments : List String
  deriving DecidableEq, Repr

structure ReadType where
  name : String
  constructors : List ReadConstructor
  deriving DecidableEq, Repr

def constructor? : List String → Option ReadConstructor
  | name :: "\x7b" :: rest =>
    if rest.getLast? = some "\x7d" then
      ((splitOuter "," 0 rest.dropLast).mapM field?).map fun fields => ⟨name, fields, []⟩
    else none
  | name :: arguments => some ⟨name, [], arguments⟩
  | [] => none

def declaresType (declaration : List String) : Bool :=
  declaration.head? == some "data" || declaration.head? == some "newtype"

/-- Read the declaration of a type, up to the classes that are derived. -/
def readType? : List String → Option ReadType
  | _ :: name :: "=" :: rest =>
    (((rest.takeWhile (· != "deriving")).splitOn "|").mapM constructor?).map fun constructors =>
      ⟨name, constructors⟩
  | _ => none

/-- The types of a module; every declaration of a type has to be read. -/
def typesIn? (declarations : List (List String)) : Option (List ReadType) :=
  (declarations.filter declaresType).mapM readType?

def ReadType.fields (type : ReadType) : List (String × List String) :=
  type.constructors.flatMap ReadConstructor.fields

/-- The lexemes of all types in a type. -/
def ReadType.mentioned (type : ReadType) : List String :=
  type.fields.flatMap Prod.snd ++ type.constructors.flatMap ReadConstructor.arguments

/-- The names that have equations, by the first lexeme. -/
def definedName? : List String → Option String
  | name :: rest => if name ∉ keywords ∧ "=" ∈ rest then some name else none
  | [] => none

def definedNames (declarations : List (List String)) : List String :=
  declarations.filterMap definedName?

def Declaration.readType (declaration : Declaration) : ReadType where
  name := declaration.name
  constructors := match declaration.body with
    | .unit => [⟨declaration.name, [], []⟩]
    | .record selectors _ _ =>
      [⟨declaration.name, selectors.map fun selector =>
        (selector.name, lexemes (typeText selector.type)), []⟩]
    | .enum _ constructors => constructors.map fun (constructor, _) => ⟨constructor, [], []⟩
    | .union constructors _ =>
      constructors.map fun (constructor, variant) => ⟨constructor, [], [variant]⟩
    | .newtype type => [⟨declaration.name, [], lexemes (atomText type)⟩]

/-- A lexeme that neither separates constructors nor ends them. -/
def KeepsOn (lexeme : String) : Prop :=
  lexeme ≠ "|" ∧ lexeme ≠ "deriving"

theorem keepsOn_of_isSpelled {kind : NameKind} {name : String} (h : kind.IsSpelled name) :
    KeepsOn name := by
  cases kind with
  | constructor =>
    have hname : IsConstructorName name := h
    constructor <;> rintro rfl <;> exact absurd hname (by decide)
  | value =>
    obtain ⟨hname, hlower⟩ := h
    constructor
    · rintro rfl
      exact absurd hname (by decide)
    · rintro rfl
      exact hlower (by decide)

theorem Mentions.keepsOn {type : DataType} {lexeme : String} (hmentions : Mentions type lexeme)
    (h : HasCapitals type) : KeepsOn lexeme := by
  obtain hbracket | hname := hmentions.isConstructorName h
  · constructor <;> rintro rfl <;> exact absurd hbracket (by decide)
  · exact @keepsOn_of_isSpelled .constructor _ hname

theorem mem_intercalate {mark lexeme : String} {lists : List (List String)}
    (h : lexeme ∈ [mark].intercalate lists) : lexeme = mark ∨ ∃ list ∈ lists, lexeme ∈ list := by
  cases lists with
  | nil => simp at h
  | cons list lists =>
    rw [intercalate_cons, List.mem_append, List.mem_flatMap] at h
    obtain h | ⟨other, hother, h⟩ := h
    · exact .inr ⟨list, List.mem_cons_self, h⟩
    · obtain h | h := List.mem_cons.1 h
      · exact .inl h
      · exact .inr ⟨other, List.mem_cons_of_mem _ hother, h⟩

theorem mapM_eq_some_map {α β γ : Type} {items : List α} {write : α → β} {read : β → Option γ}
    {own : α → γ} (h : ∀ item ∈ items, read (write item) = some (own item)) :
    (items.map write).mapM read = some (items.map own) := by
  induction items with
  | nil => rfl
  | cons item items ih =>
    obtain ⟨hitem, hitems⟩ := List.forall_mem_cons.1 h
    simp [hitem, ih hitems]

namespace Declaration.WellNamed

variable {declaration : Declaration} (h : declaration.WellNamed)
include h

/-- In the constructors of a type stand no bars and no words of the language. -/
theorem keepsOn_of_mem_alternatives : ∀ alternative ∈ declaration.alternatives,
    ∀ lexeme ∈ alternative, KeepsOn lexeme := by
  obtain ⟨name, description, body⟩ := declaration
  obtain ⟨hname, hnames, htypes, -⟩ := h
  have hown : KeepsOn name := @keepsOn_of_isSpelled .constructor _ hname
  cases body with
  | unit => simpa [alternatives] using hown
  | record selectors options label =>
    have hbrackets : KeepsOn "\x7b" ∧ KeepsOn "\x7d" ∧ KeepsOn "," ∧ KeepsOn "::" := by
      simp [KeepsOn]
    obtain ⟨hopening, hclosing, hcomma, hcolons⟩ := hbrackets
    have hfields : ∀ lexeme ∈ [","].intercalate (selectors.map Selector.phrase),
        KeepsOn lexeme := by
      intro lexeme hlexeme
      obtain rfl | ⟨list, hlist, hlexeme⟩ := mem_intercalate hlexeme
      · exact hcomma
      · obtain ⟨selector, hselector, rfl⟩ := List.mem_map.1 hlist
        obtain rfl | hlexeme := List.mem_cons.1 hlexeme
        · exact keepsOn_of_isSpelled (hnames (.value, selector.name)
            (List.mem_append_left _ (List.mem_map.2 ⟨_, hselector, rfl⟩)))
        · obtain rfl | hlexeme := List.mem_cons.1 hlexeme
          · exact hcolons
          · have htype := htypes _ (List.mem_map_of_mem hselector)
            exact (mentions_of_mem_lexemes htype.hasWords lexeme hlexeme).keepsOn htype
    simp only [alternatives, List.forall_mem_singleton, List.cons_append, List.forall_mem_cons,
      List.forall_mem_append]
    exact ⟨hown, hopening, hfields, hclosing⟩
  | enum title constructors =>
    refine List.forall_mem_map.2 fun entry hentry => List.forall_mem_singleton.2 ?_
    exact keepsOn_of_isSpelled (hnames (.constructor, entry.1) (List.mem_map.2 ⟨_, hentry, rfl⟩))
  | union constructors discriminator =>
    refine List.forall_mem_map.2 fun entry hentry => List.forall_mem_cons.2 ⟨?_, ?_⟩
    · exact keepsOn_of_isSpelled (hnames (.constructor, entry.1) (List.mem_map.2 ⟨_, hentry, rfl⟩))
    · refine List.forall_mem_singleton.2 (@keepsOn_of_isSpelled .constructor _ ?_)
      exact (htypes _ (List.mem_map_of_mem hentry)).models entry.2 List.mem_cons_self
  | newtype type =>
    have htype := htypes type List.mem_cons_self
    refine List.forall_mem_singleton.2 (List.forall_mem_cons.2 ⟨hown, fun lexeme hlexeme => ?_⟩)
    exact (mentions_of_mem_lexemes_atomText htype.hasWords hlexeme).keepsOn htype

theorem constructor?_record {selectors : List Selector} {options label : String}
    (hbody : declaration.body = .record selectors options label) :
    constructor? (declaration.name :: "\x7b" ::
        [","].intercalate (selectors.map Selector.phrase) ++ ["\x7d"]) =
      some ⟨declaration.name, selectors.map fun selector =>
        (selector.name, lexemes (typeText selector.type)), []⟩ := by
  obtain ⟨-, hnames, htypes, hfull⟩ := h
  rw [hbody] at hnames htypes hfull
  have hphrases : ∀ list ∈ selectors.map Selector.phrase, Phrase "," list := by
    refine List.forall_mem_map.2 fun selector hselector => ?_
    have hword := isWord_of_isSpelled (hnames (.value, selector.name)
      (List.mem_append_left _ (List.mem_map.2 ⟨_, hselector, rfl⟩)))
    have hname : Phrase "," [selector.name] :=
      phrase_of_plain (by decide) (List.forall_mem_singleton.2 hword.isPlainLexeme)
    have hcolons : Phrase "," ["::"] := by decide
    have htype := (htypes _ (List.mem_map_of_mem hselector)).hasWords
    exact hname.append (hcolons.append ((phraseText_typeText htype).phrase "," (by decide)))
  have hsplit := splitOuter_intercalate (by simpa [DeclarationBody.IsFull] using hfull) hphrases
  have hread : (selectors.map Selector.phrase).mapM field? = some (selectors.map fun selector =>
      (selector.name, lexemes (typeText selector.type))) := mapM_eq_some_map fun _ _ => rfl
  simp [constructor?, hsplit, hread]

theorem mapM_constructor?_alternatives :
    declaration.alternatives.mapM constructor? = some declaration.readType.constructors := by
  have hrecord := @constructor?_record declaration h
  obtain ⟨name, description, body⟩ := declaration
  obtain ⟨hname, hnames, htypes, -⟩ := h
  cases body with
  | unit => rfl
  | record selectors options label =>
    rw [alternatives, List.mapM_cons, hrecord rfl]
    rfl
  | enum title constructors => exact mapM_eq_some_map fun _ _ => rfl
  | union constructors discriminator =>
    refine mapM_eq_some_map fun entry hentry => ?_
    have hne : entry.2 ≠ "\x7b" := by
      have hvariant := (htypes _ (List.mem_map_of_mem hentry)).models entry.2 List.mem_cons_self
      exact hvariant.word.ne (c := '\x7b') (by decide) (by decide)
    simp [constructor?, hne]
  | newtype type =>
    have htype := htypes type List.mem_cons_self
    have hne : ∀ lexeme ∈ lexemes (atomText type), lexeme ≠ "\x7b" := by
      rintro _ hlexeme rfl
      obtain hbracket | hname :=
        (mentions_of_mem_lexemes_atomText htype.hasWords hlexeme).isConstructorName htype
      · exact absurd hbracket (by decide)
      · exact absurd hname (by decide)
    cases hlexemes : lexemes (atomText type) with
    | nil => simp [alternatives, readType, constructor?, hlexemes]
    | cons lexeme rest =>
      have hfirst := hne lexeme (hlexemes ▸ List.mem_cons_self)
      simp [alternatives, readType, constructor?, hlexemes, hfirst]

theorem readType?_typeDeclaration :
    readType? declaration.typeDeclaration = some declaration.readType := by
  have hkeeps := h.keepsOn_of_mem_alternatives
  have hall : ∀ lexeme ∈ ["|"].intercalate declaration.alternatives,
      (lexeme != "deriving") = true := by
    intro lexeme hlexeme
    rw [bne_iff_ne]
    obtain rfl | ⟨alternative, hmem, hlexeme⟩ := mem_intercalate hlexeme
    · decide
    · exact (hkeeps alternative hmem lexeme hlexeme).2
  have hderived : declaration.derived.takeWhile (· != "deriving") = [] := by
    unfold derived
    split <;> rfl
  have hfull : declaration.alternatives ≠ [] := by
    have hfull := h.full
    unfold alternatives
    unfold DeclarationBody.IsFull at hfull
    split <;> simp_all
  have hsplit := List.splitOn_intercalate "|"
    (fun alternative hmem hbar => (hkeeps alternative hmem "|" hbar).1 rfl) hfull
  simp only [typeDeclaration, List.cons_append, readType?]
  rw [List.takeWhile_append_of_pos hall, hderived, List.append_nil, hsplit,
    h.mapM_constructor?_alternatives]
  rfl

end Declaration.WellNamed

/-! ## Parts of the module -/

theorem notMem_keywords_of_isSpelled {name : String} (h : NameKind.value.IsSpelled name) :
    name ∉ keywords := by
  have hlower : ∀ word ∈ keywords, Text.MadeOf Char.isLower word := by decide
  exact fun hmem => h.2 (hlower name hmem)

/-- The words that begin what is written of a type besides functions. -/
def typeWords : List String :=
  ["data", "newtype", "instance"]

/-- The functions of a record by name. -/
def Declaration.functionNames (declaration : Declaration) : List String :=
  match declaration.body with
  | .record _ options label => [options, label]
  | _ => []

namespace Declaration

variable {declaration : Declaration} {part instances : List (List String)}

theorem WellNamed.isSpelled_functionNames (h : declaration.WellNamed) :
    ∀ name ∈ declaration.functionNames, NameKind.value.IsSpelled name := by
  obtain ⟨name, description, body⟩ := declaration
  have hnames := h.names
  cases body with
  | record selectors options label =>
    exact fun name hname => hnames (.value, name) (List.mem_append_right _ (by
      simpa [functionNames] using hname))
  | _ => simp [functionNames]

/-- A function begins with its name. -/
theorem head?_of_mem_functions : ∀ own ∈ declaration.functions,
    ∃ name ∈ declaration.functionNames, own.head? = some name := by
  obtain ⟨name, description, body⟩ := declaration
  cases body <;> simp [functions, functionNames]

theorem filterMap_definedName?_functions (h : declaration.WellNamed) :
    declaration.functions.filterMap definedName? = declaration.functionNames := by
  have hwords := fun name hname =>
    notMem_keywords_of_isSpelled (h.isSpelled_functionNames name hname)
  obtain ⟨name, description, body⟩ := declaration
  cases body with
  | record selectors options label =>
    have hoptions : options ∉ keywords := hwords options (by simp [functionNames])
    have hlabel : label ∉ keywords := hwords label (by simp [functionNames])
    simp [functions, functionNames, definedName?, hoptions, hlabel]
  | _ => rfl

/-- How what is read of a declaration begins. -/
theorem IsReadAs.head? (hread : declaration.IsReadAs part instances) : ∀ own ∈ part,
    (∃ word ∈ typeWords, own.head? = some word) ∨
      ∃ name ∈ declaration.functionNames, own.head? = some name := by
  rw [hread.read, List.forall_mem_cons, List.forall_mem_append]
  refine ⟨.inl ⟨declaration.keyword, ?_, rfl⟩, fun own hown => .inl ?_, fun own hown =>
    .inr (head?_of_mem_functions own hown)⟩
  · unfold keyword
    split <;> decide
  · obtain ⟨className, body, rfl, -⟩ := hread.annotated own hown
    exact ⟨"instance", by decide, rfl⟩

/-- What begins with another word of the language is not among what is read. -/
theorem IsReadAs.head?_ne (hread : declaration.IsReadAs part instances) (h : declaration.WellNamed)
    {word : String} (hword : word ∈ keywords) (htype : word ∉ typeWords) :
    ∀ own ∈ part, own.head? ≠ some word := by
  intro own hown heq
  obtain ⟨first, hfirst, hhead⟩ | ⟨name, hname, hhead⟩ := hread.head? own hown
  · exact htype (Option.some.inj (heq.symm.trans hhead) ▸ hfirst)
  · refine notMem_keywords_of_isSpelled (h.isSpelled_functionNames name hname) ?_
    exact Option.some.inj (heq.symm.trans hhead) ▸ hword

theorem IsReadAs.filter_declaresType (hread : declaration.IsReadAs part instances)
    (h : declaration.WellNamed) : part.filter declaresType = [declaration.typeDeclaration] := by
  have hown : declaresType declaration.typeDeclaration = true := by
    unfold declaresType typeDeclaration keyword
    split <;> rfl
  have hinstances : instances.filter declaresType = [] := by
    rw [List.filter_eq_nil_iff]
    intro own hmem
    obtain ⟨className, body, rfl, -⟩ := hread.annotated own hmem
    simp [declaresType]
  have hfunctions : declaration.functions.filter declaresType = [] := by
    rw [List.filter_eq_nil_iff]
    intro own hmem
    obtain ⟨name, hname, hhead⟩ := head?_of_mem_functions own hmem
    have hword := notMem_keywords_of_isSpelled (h.isSpelled_functionNames name hname)
    have hdata : name ≠ "data" := fun heq => hword (heq ▸ by decide)
    have hnewtype : name ≠ "newtype" := fun heq => hword (heq ▸ by decide)
    simp [declaresType, hhead, hdata, hnewtype]
  rw [hread.read, List.filter_cons_of_pos hown, List.filter_append, hinstances, hfunctions]
  rfl

theorem IsReadAs.definedNames_eq (hread : declaration.IsReadAs part instances)
    (h : declaration.WellNamed) : definedNames part = declaration.functionNames := by
  have hkeyword : ∀ (word : String) (rest : List String), word ∈ keywords →
      definedName? (word :: rest) = none := fun word rest hword => by
    simp [definedName?, hword]
  have hown : definedName? declaration.typeDeclaration = none := by
    refine hkeyword _ _ ?_
    unfold keyword
    split <;> decide
  have hinstances : instances.filterMap definedName? = [] := by
    rw [List.filterMap_eq_nil_iff]
    intro own hmem
    obtain ⟨className, body, rfl, -⟩ := hread.annotated own hmem
    exact hkeyword _ _ (by decide)
  rw [definedNames, hread.read, List.filterMap_cons_none hown, List.filterMap_append, hinstances,
    filterMap_definedName?_functions h]
  rfl

/-- Behind the name of a function, only functions are found. -/
theorem IsReadAs.filter_isPrefixOf (hread : declaration.IsReadAs part instances) {name : String}
    (hname : name ∉ keywords) (rest : List String) :
    part.filter ((name :: rest).isPrefixOf ·) =
      declaration.functions.filter ((name :: rest).isPrefixOf ·) := by
  have hother : ∀ (word : String) (list : List String), word ∈ typeWords →
      (name :: rest).isPrefixOf (word :: list) = false := by
    intro word list hword
    have hwords : typeWords ⊆ keywords := by decide
    have hne : name ≠ word := fun heq => hname (heq ▸ hwords hword)
    simp [List.isPrefixOf, hne]
  have hown : (name :: rest).isPrefixOf declaration.typeDeclaration = false := by
    refine hother declaration.keyword _ ?_
    unfold keyword
    split <;> decide
  have hinstances : instances.filter ((name :: rest).isPrefixOf ·) = [] := by
    rw [List.filter_eq_nil_iff]
    intro own hmem
    obtain ⟨className, body, rfl, -⟩ := hread.annotated own hmem
    rw [hother "instance" _ (by decide)]
    decide
  rw [hread.read, List.filter_cons_of_neg (by simp [hown]), List.filter_append, hinstances,
    List.nil_append]

/-- Behind the head of an instance, only instances are found. -/
theorem IsReadAs.filter_instances (hread : declaration.IsReadAs part instances)
    (h : declaration.WellNamed) (className name : String) :
    part.filter (["instance", className, name, "where"].isPrefixOf ·) =
      instances.filter (["instance", className, name, "where"].isPrefixOf ·) := by
  have hown : ["instance", className, name, "where"].isPrefixOf declaration.typeDeclaration =
      false := by
    unfold typeDeclaration keyword
    split <;> simp [List.isPrefixOf]
  have hfunctions : declaration.functions.filter
      (["instance", className, name, "where"].isPrefixOf ·) = [] := by
    rw [List.filter_eq_nil_iff]
    intro own hmem hprefix
    obtain ⟨word, hword, hhead⟩ := head?_of_mem_functions own hmem
    obtain ⟨list, rfl⟩ := List.head?_eq_some_iff.1 hhead
    obtain ⟨rfl, -⟩ : "instance" = word ∧ _ := by simpa [List.isPrefixOf] using hprefix
    exact notMem_keywords_of_isSpelled (h.isSpelled_functionNames _ hword) (by decide)
  rw [hread.read, List.filter_cons_of_neg (by simp [hown]), List.filter_append, hfunctions,
    List.append_nil]

end Declaration

/-! ## The whole module -/

section Parts

variable {α β γ : Type} {R : α → β → Prop} {items : List α} {parts : List β}

/-- What is read of all parts, if it is known of each. -/
theorem flatten_map_of_forall₂ (h : List.Forall₂ R items parts) {read : β → List γ}
    {own : α → List γ} (hown : ∀ item ∈ items, ∀ part, R item part → read part = own item) :
    (parts.map read).flatten = items.flatMap own := by
  induction h with
  | nil => rfl
  | cons hfirst _ ih =>
    obtain ⟨hitem, hitems⟩ := List.forall_mem_cons.1 hown
    rw [List.map_cons, List.flatten_cons, List.flatMap_cons, hitem _ hfirst, ih hitems]

/-- What is read of one part only is read once of all. -/
theorem flatMap_eq_of_nodup (honce : items.Nodup) {item : α} (hmem : item ∈ items)
    {own : α → List γ} (hothers : ∀ other ∈ items, other ≠ item → own other = []) :
    items.flatMap own = own item := by
  obtain ⟨front, back, rfl⟩ := List.append_of_mem hmem
  rw [List.nodup_middle, List.nodup_cons, List.mem_append, not_or] at honce
  have hfront : front.flatMap own = [] := List.flatMap_eq_nil_iff.2 fun other hother =>
    hothers other (List.mem_append_left _ hother) fun heq => honce.1.1 (heq ▸ hother)
  have hback : back.flatMap own = [] := List.flatMap_eq_nil_iff.2 fun other hother =>
    hothers other (List.mem_append_right _ (List.mem_cons_of_mem _ hother)) fun heq =>
      honce.1.2 (heq ▸ hother)
  rw [List.flatMap_append, List.flatMap_cons, hfront, hback, List.nil_append, List.append_nil]

end Parts

def Declaration.selectorNames (declaration : Declaration) : List String :=
  declaration.readType.fields.map Prod.fst

theorem Declaration.namesOf_value (declaration : Declaration) :
    namesOf .value declaration.body.names =
      declaration.selectorNames ++ declaration.functionNames := by
  obtain ⟨name, description, body⟩ := declaration
  cases body with
  | record selectors options label =>
    have hfunctions : namesOf .value [(.value, options), (.value, label)] = [options, label] := rfl
    simp [DeclarationBody.names, namesOf_map, selectorNames, functionNames, readType,
      ReadType.fields, hfunctions, Function.comp_def]
  | _ => simp [DeclarationBody.names, namesOf_map, selectorNames, functionNames, readType,
      ReadType.fields, List.flatMap_map]

namespace TypesModule.IsReadFrom

variable {context : RenderContext} {types : TypesModule} {read : List (List String)}
  (h : types.IsReadFrom context read)

theorem head?_of_mem_headDeclarations : ∀ own ∈ types.headDeclarations,
    ∃ word ∈ headWords, own.head? = some word := by
  simp [headDeclarations, importDeclarations, importDeclaration, headWords, or_imp, forall_and]

include h

/-- What is found nowhere in the head is found in the parts. -/
theorem filter_eq {keeps : List String → Bool}
    (hhead : ∀ own ∈ types.headDeclarations, keeps own = false)
    {own : Declaration → List (List String)}
    (hown : ∀ declaration ∈ types.declarations, ∀ part instances,
      declaration.IsReadAs part instances → part.filter keeps = own declaration) :
    read.filter keeps = types.declarations.flatMap own := by
  obtain ⟨parts, hparts, rfl⟩ := h.parts
  have hnone : types.headDeclarations.filter keeps = [] := by
    rw [List.filter_eq_nil_iff]
    exact fun own hmem => by simp [hhead own hmem]
  rw [List.filter_append, hnone, List.nil_append, List.filter_flatten]
  refine flatten_map_of_forall₂ hparts fun declaration hmem part hpart => ?_
  obtain ⟨instances, hpart⟩ := hpart
  exact hown declaration hmem part instances hpart

theorem typesIn?_eq :
    typesIn? read = some (types.declarations.map Declaration.readType) := by
  have hfilter := @filter_eq _ _ _ h declaresType (fun own hmem => by
      obtain ⟨word, hword, hhead⟩ := head?_of_mem_headDeclarations own hmem
      have hne : word ≠ "data" ∧ word ≠ "newtype" := by
        constructor <;> rintro rfl <;> exact absurd hword (by decide)
      simp [declaresType, hhead, hne])
    (fun declaration => [declaration.typeDeclaration]) fun declaration hmem part instances hpart =>
      hpart.filter_declaresType (h.wellNamed declaration hmem)
  rw [typesIn?, hfilter, ← List.map_eq_flatMap]
  exact mapM_eq_some_map fun declaration hmem =>
    (h.wellNamed declaration hmem).readType?_typeDeclaration

theorem definedNames_eq :
    definedNames read = types.declarations.flatMap Declaration.functionNames := by
  obtain ⟨parts, hparts, rfl⟩ := h.parts
  have hhead : types.headDeclarations.filterMap definedName? = [] := by
    have hkeyword : ∀ (word : String) (rest : List String), word ∈ keywords →
        definedName? (word :: rest) = none := fun word rest hword => by
      simp [definedName?, hword]
    simp only [headDeclarations, importDeclarations, importDeclaration, List.filterMap_eq_nil_iff,
      List.forall_mem_append, List.forall_mem_map, List.forall_mem_singleton, List.cons_append]
    exact ⟨⟨⟨by decide, hkeyword _ _ (by decide)⟩, fun _ _ => hkeyword _ _ (by decide)⟩, by decide⟩
  rw [definedNames, List.filterMap_append, hhead, List.nil_append, List.filterMap_flatten]
  refine flatten_map_of_forall₂ hparts fun declaration hmem part hpart => ?_
  obtain ⟨instances, hpart⟩ := hpart
  exact hpart.definedNames_eq (h.wellNamed declaration hmem)

/-- Each type is exported once, with all its constructors and fields. -/
theorem exportsOf_eq :
    exportsOf read = types.declarations.map fun declaration => exportedItem declaration.name := by
  obtain ⟨parts, hparts, rfl⟩ := h.parts
  have hitems : listedItems ("(" :: [","].intercalate (types.declarations.map fun declaration =>
      exportedItem declaration.name) ++ [")"]) =
      types.declarations.map fun declaration => exportedItem declaration.name := by
    refine listedItems_enclosed (by simpa using h.full) (List.forall_mem_map.2 ?_)
    intro declaration hmem
    have hname : Phrase "," [declaration.name] := phrase_of_plain (by decide)
      (List.forall_mem_singleton.2 (h.wellNamed declaration hmem).name.word.isPlainLexeme)
    have hall : Phrase "," ["(", "..", ")"] := by decide
    exact hname.append hall
  have hhead : types.headDeclarations.flatMap exportsIn =
      types.declarations.map fun declaration => exportedItem declaration.name := by
    have himports : (importDeclarations types.imports).flatMap exportsIn = [] := by
      rw [List.flatMap_eq_nil_iff, importDeclarations, List.forall_mem_map]
      exact fun _ _ => rfl
    have hmodule : ∀ module items, exportsIn ("module" :: module :: "(" :: items ++
        [")", "where"]) = listedItems ("(" :: items ++ [")"]) := by
      intro module items
      have hlist : "(" :: items ++ [")", "where"] = ("(" :: items ++ [")"]) ++ ["where"] := by simp
      rw [List.cons_append, List.cons_append, hlist, exportsIn, List.getLast?_concat, if_pos rfl,
        List.dropLast_concat]
    rw [headDeclarations, List.flatMap_append, List.flatMap_append, List.flatMap_append,
      himports, List.flatMap_singleton, hmodule, hitems]
    simp [exportsIn]
  have hnone : parts.flatten.flatMap exportsIn = [] := by
    rw [List.flatMap_eq_nil_iff]
    intro own hmem
    obtain ⟨part, hpart, hmem⟩ := List.mem_flatten.1 hmem
    obtain ⟨declaration, hdeclaration, instances, hread⟩ :=
      Outcomes.exists_of_mem_of_forall₂ hparts hpart
    have hhead := hread.head?_ne (h.wellNamed declaration hdeclaration) (by decide : "module" ∈ _)
      (by decide) own hmem
    unfold exportsIn
    split
    · simp at hhead
    · rfl
  rw [exportsOf, List.flatMap_append, hhead, hnone, List.append_nil]

/-- What the module imports from a library is listed in its head. -/
theorem mem_importsOf {own : Import} (hown : own ∈ types.imports)
    (hlibrary : own ∈ libraryImports) :
    own ∈ importsOf read := by
  obtain ⟨parts, -, rfl⟩ := h.parts
  simp only [headDeclarations, importsOf_append, List.mem_append]
  exact .inl (.inl (.inr (mem_importsOf_importDeclarations types.imports_subset hown hlibrary)))

end TypesModule.IsReadFrom

end ServantGen.Haskell
