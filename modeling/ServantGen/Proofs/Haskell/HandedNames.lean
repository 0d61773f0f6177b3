import ServantGen.Proofs.Haskell.Files
import ServantGen.Proofs.Haskell.Spelling
import ServantGen.Proofs.Haskell.UrlInstances

/-!
# Names that are handed out

The module of types hands out names while it declares types: constructors in one scope, fields and
functions in another. Whatever was taken before, for each name that is asked for one is handed out
that is named after it and was not held; and a name that was asked for is held from then on, by
whoever came first. An enumeration inside a type is declared like a model with its name.
-/

namespace ServantGen.Haskell

/-! ## Scopes of a module -/

/-- The kinds of names of a module; each has a scope of its own. -/
inductive NameKind where
  | constructor
  | value
  deriving DecidableEq, Repr

def ModuleNames.scope (names : ModuleNames) : NameKind → NameScope
  | .constructor => names.constructors
  | .value => names.values

def namesOf (kind : NameKind) (names : List (NameKind × String)) : List String :=
  (names.filter (·.1 == kind)).map Prod.snd

section NamesOf

variable (kind : NameKind)

@[simp] theorem namesOf_nil : namesOf kind [] = [] := rfl

@[simp] theorem namesOf_append (first rest : List (NameKind × String)) :
    namesOf kind (first ++ rest) = namesOf kind first ++ namesOf kind rest := by
  simp [namesOf]

@[simp] theorem namesOf_flatMap {α : Type} (items : List α)
    (each : α → List (NameKind × String)) :
    namesOf kind (items.flatMap each) = items.flatMap fun item => namesOf kind (each item) := by
  induction items with
  | nil => rfl
  | cons item items ih => simp [List.flatMap_cons, ih]

theorem namesOf_map {α : Type} (own : NameKind) (items : List α) (each : α → String) :
    namesOf kind (items.map fun item => (own, each item)) =
      if own = kind then items.map each else [] := by
  by_cases h : own = kind <;> simp [namesOf, h, List.filter_map, Function.comp_def]

theorem mem_namesOf {kind : NameKind} {name : String} {names : List (NameKind × String)} :
    name ∈ namesOf kind names ↔ (kind, name) ∈ names := by
  simp [namesOf]

end NamesOf

/-- There is a name for each that is asked for, of the same kind and named after it. -/
abbrev AllNamed (asked given : List (NameKind × String)) : Prop :=
  List.Forall₂ (fun asked given => given.1 = asked.1 ∧ NamedAfter asked.2 given.2) asked given

/-- What is handed out on the way from one state to another. -/
structure Hands (before after : ModuleNames) (asked given : List (NameKind × String)) : Prop where
  named : AllNamed asked given
  held : ∀ kind, (after.scope kind).owners.keys =
    (namesOf kind given).reverse ++ (before.scope kind).owners.keys
  new : ∀ kind, (before.scope kind).AreNew (namesOf kind given)
  /-- A name that is asked for is held, even if it was handed out to somebody else. -/
  taken : ∀ entry ∈ asked, entry.2 ∈ (after.scope entry.1).owners.keys

namespace Hands

variable {before middle after : ModuleNames} {asked given others more : List (NameKind × String)}

theorem nothing (names : ModuleNames) : Hands names names [] [] where
  named := .nil
  held := fun _ => rfl
  new := fun _ => NameScope.areNew_nil _
  taken := by simp

theorem trans (h : Hands before middle asked given) (h' : Hands middle after others more) :
    Hands before after (asked ++ others) (given ++ more) where
  named := List.rel_append h.named h'.named
  held := by
    intro kind
    rw [h'.held kind, h.held kind, namesOf_append, List.reverse_append, List.append_assoc]
  new := by
    intro kind
    have hnew := (h'.new kind).new
    rw [h.held kind] at hnew
    rw [namesOf_append]
    refine ⟨List.nodup_append.2 ⟨(h.new kind).once, (h'.new kind).once, ?_⟩, ?_⟩
    · rintro name hname _ hother rfl
      exact hnew name hother (List.mem_append_left _ (List.mem_reverse.2 hname))
    · refine List.forall_mem_append.2 ⟨(h.new kind).new, fun name hname hheld => ?_⟩
      exact hnew name hname (List.mem_append_right _ hheld)
  taken := by
    refine List.forall_mem_append.2 ⟨fun entry hentry => ?_, h'.taken⟩
    rw [h'.held]
    exact List.mem_append_right _ (h.taken entry hentry)

end Hands

/-- After a claim the preferred name is held. -/
theorem preferred_mem_claimFresh (scope : NameScope) (reserved : List String)
    (raw preferred : String) :
    preferred ∈ (scope.claimFresh reserved raw preferred).2.owners.keys := by
  rw [NameScope.keys_claimFresh]
  unfold NameScope.claimFresh
  split
  · exact List.mem_cons_self
  · rename_i existing howner
    refine List.mem_cons_of_mem _ (NameScope.isTaken_iff.1 ?_)
    rw [NameScope.isTaken, howner]
    rfl

/-- One claim in the scope of a kind, which leaves the other scope alone. -/
theorem hands_claimFresh {before after : ModuleNames} {kind : NameKind} {reserved : List String}
    {raw preferred : String}
    (hown : after.scope kind = ((before.scope kind).claimFresh reserved raw preferred).2)
    (hother : ∀ other, other ≠ kind → after.scope other = before.scope other) :
    Hands before after [(kind, preferred)]
      [(kind, ((before.scope kind).claimFresh reserved raw preferred).1.name)] := by
  have hnames : ∀ (other : NameKind) (name : String),
      namesOf other [(kind, name)] = if kind = other then [name] else [] := fun other name =>
    namesOf_map other kind [name] id
  refine ⟨.cons ⟨rfl, namedAfter_claimFresh _ _ _ _⟩ .nil, fun other => ?_, fun other => ?_, ?_⟩
  · rw [hnames]
    split
    · rename_i heq
      subst heq
      rw [hown, NameScope.keys_claimFresh]
      rfl
    · rename_i hne
      rw [hother other (Ne.symm hne)]
      rfl
  · rw [hnames]
    split
    · rename_i heq
      subst heq
      exact (NameScope.areNew_nil _).cons_claimFresh
    · exact NameScope.areNew_nil _
  · rw [List.forall_mem_singleton, hown]
    exact preferred_mem_claimFresh _ _ _ _

/-! ## Computations that hand out names -/

/-- Whatever names are taken, a computation hands out names for those it asks for, and its answer
is right about them. -/
def HandsOut {α : Type} (m : NamesM α) (asked : List (NameKind × String))
    (right : α → List (NameKind × String) → Prop) : Prop :=
  ∀ before, ∃ given, Hands before (m.run before).2 asked given ∧ right (m.run before).1 given

namespace HandsOut

variable {α β : Type} {asked more : List (NameKind × String)}

theorem pure {value : α} {right : α → List (NameKind × String) → Prop} (h : right value []) :
    HandsOut (pure value) [] right :=
  fun before => ⟨[], .nothing before, h⟩

theorem bind {m : NamesM α} {next : α → NamesM β}
    {middle : α → List (NameKind × String) → Prop} {right : β → List (NameKind × String) → Prop}
    (h : HandsOut m asked middle)
    (hnext : ∀ value given, middle value given →
      HandsOut (next value) more fun result others => right result (given ++ others)) :
    HandsOut (m >>= next) (asked ++ more) right := by
  intro before
  obtain ⟨given, hhands, hmiddle⟩ := h before
  obtain ⟨others, hrest, hright⟩ := hnext _ given hmiddle (m.run before).2
  exact ⟨given ++ others, hhands.trans hrest, hright⟩

theorem mono {m : NamesM α} {right weaker : α → List (NameKind × String) → Prop}
    (h : HandsOut m asked right) (hright : ∀ value given, right value given → weaker value given) :
    HandsOut m asked weaker := by
  intro before
  obtain ⟨given, hhands, hgiven⟩ := h before
  exact ⟨given, hhands, hright _ _ hgiven⟩

/-- What is handed out is named after what is asked for. -/
theorem allNamed {m : NamesM α} {right : α → List (NameKind × String) → Prop}
    (h : HandsOut m asked right) :
    HandsOut m asked fun value given => right value given ∧ AllNamed asked given := by
  intro before
  obtain ⟨given, hhands, hgiven⟩ := h before
  exact ⟨given, hhands, hgiven, hhands.named⟩

/-- An answer that is made from another one needs no more names. -/
theorem map {m : NamesM α} {change : α → β} {middle : α → List (NameKind × String) → Prop}
    {right : β → List (NameKind × String) → Prop} (h : HandsOut m asked middle)
    (hchange : ∀ value given, middle value given → right (change value) given) :
    HandsOut (m >>= fun value => Pure.pure (change value)) asked right := by
  have hbind : HandsOut (m >>= fun value => Pure.pure (change value)) (asked ++ []) right :=
    h.bind fun value given hmiddle =>
      HandsOut.pure ((List.append_nil given).symm ▸ hchange value given hmiddle)
  rwa [List.append_nil] at hbind

theorem mapM {items : List α} {action : α → NamesM β} {names : α → List (NameKind × String)}
    {each : α → β → Prop} {given : β → List (NameKind × String)}
    (h : ∀ item, HandsOut (action item) (names item)
      fun value own => each item value ∧ own = given value) :
    HandsOut (items.mapM action) (items.flatMap names)
      fun values own => List.Forall₂ each items values ∧ own = values.flatMap given := by
  induction items with
  | nil => exact HandsOut.pure ⟨.nil, rfl⟩
  | cons item items ih =>
    rw [List.mapM_cons, List.flatMap_cons]
    refine (h item).bind fun value own hvalue => ih.map fun values others hvalues => ?_
    obtain ⟨heach, rfl⟩ := hvalue
    obtain ⟨hrest, rfl⟩ := hvalues
    exact ⟨.cons heach hrest, rfl⟩

/-- The same for one name each. -/
theorem mapEach {items : List α} {action : α → NamesM β} {name : α → NameKind × String}
    {each : α → β → Prop} {given : β → NameKind × String}
    (h : ∀ item, HandsOut (action item) [name item]
      fun value own => each item value ∧ own = [given value]) :
    HandsOut (items.mapM action) (items.map name)
      fun values own => List.Forall₂ each items values ∧ own = values.map given := by
  simpa only [List.map_eq_flatMap] using HandsOut.mapM h

end HandsOut

theorem valueName_hands (context : RenderContext) (raw preferred : String) :
    HandsOut (valueName context raw preferred) [(.value, preferred)]
      fun name given => given = [(.value, name)] := by
  refine fun before => ⟨_, @hands_claimFresh before _ .value _ _ _ rfl fun other hne => ?_, rfl⟩
  cases other with
  | constructor => rfl
  | value => exact absurd rfl hne

theorem constructorName_hands (raw preferred : String) :
    HandsOut (constructorName raw preferred) [(.constructor, preferred)]
      fun name given => given = [(.constructor, name)] := by
  refine fun before =>
    ⟨_, @hands_claimFresh before _ .constructor _ _ _ rfl fun other hne => ?_, rfl⟩
  cases other with
  | constructor => exact absurd rfl hne
  | value => rfl

/-! ## Declarations of types -/

/-- An enumeration inside a type as a model. -/
def InlineEnum.asModel (inline : InlineEnum) : Model :=
  ⟨inline.name, inline.name, none, .enum inline.values, none⟩

/-- The types that are declared: models, then enumerations inside types. -/
def declaredTypes (api : Api) : List Model :=
  api.models.models ++ api.inlineEnums.map InlineEnum.asModel

theorem map_name_declaredTypes (context : RenderContext) :
    (declaredTypes context.api).map Model.name = typeNames context := by
  simp [declaredTypes, typeNames, ModelTable.names, InlineEnum.asModel, Function.comp_def]

theorem declarations_eq_mapM (context : RenderContext) :
    declarations context = (declaredTypes context.api).mapM (modelDeclaration context) := by
  have hinlines : ∀ inlines : List InlineEnum, inlines.mapM (inlineDeclaration context) =
      (inlines.map InlineEnum.asModel).mapM (modelDeclaration context) := by
    intro inlines
    induction inlines with
    | nil => rfl
    | cons inline inlines ih =>
      rw [List.map_cons, List.mapM_cons, List.mapM_cons, ih]
      rfl
  rw [declaredTypes, List.mapM_append, ← hinlines]
  rfl

/-- The names that a record asks for: those of its fields and of its two functions. -/
def recordNames (name : String) (fields : List Field) : List (NameKind × String) :=
  if fields.isEmpty then []
  else
    (fields.map fun field => (.value, selectorName name field.name)) ++
      [(.value, lowerFirst name ++ "JsonOptions"), (.value, lowerFirst name ++ "JsonField")]

def askedNames (context : RenderContext) (model : Model) : List (NameKind × String) :=
  match model.shape with
  | .record fields => recordNames model.name fields
  | .enum values => values.map fun value =>
      (.constructor, model.name ++ context.target.convention.base .variant value)
  | .union variants => variants.map fun variant => (.constructor, model.name ++ variant)
  | .alias _ => []

def DeclarationBody.names : DeclarationBody → List (NameKind × String)
  | .unit | .newtype _ => []
  | .record selectors options label =>
    (selectors.map fun selector => (.value, selector.name)) ++ [(.value, options), (.value, label)]
  | .enum _ constructors | .union constructors _ =>
    constructors.map fun (constructor, _) => (.constructor, constructor)

/-- What a declaration says about a type besides names: properties and types of fields, texts of
values, models of variants. -/
inductive Shows (title : String) (discriminator : Option Discriminator) :
    Shape → DeclarationBody → Prop
  | unit : Shows title discriminator (.record []) .unit
  | record {fields : List Field} {selectors : List Selector} {options label : String}
      (hne : fields ≠ [])
      (hfields : List.Forall₂ (fun field selector => selector.property = field.rawName ∧
        selector.type = field.type) fields selectors) :
      Shows title discriminator (.record fields) (.record selectors options label)
  | noValues : Shows title discriminator (.enum []) (.newtype .string)
  | enum {constructors : List (String × String)} (hne : constructors ≠ []) :
      Shows title discriminator (.enum (constructors.map Prod.snd)) (.enum title constructors)
  | noVariants : Shows title discriminator (.union []) (.newtype .any)
  | union {constructors : List (String × String)} (hne : constructors ≠ []) :
      Shows title discriminator (.union (constructors.map Prod.snd))
        (.union constructors discriminator)
  | alias (type : DataType) : Shows title discriminator (.alias type) (.newtype type)

/-- A declaration of a type, with the names that were handed out for it. -/
structure DeclaresType (context : RenderContext) (model : Model) (declaration : Declaration) :
    Prop where
  name : declaration.name = model.name
  body : Shows model.rawName model.discriminator model.shape declaration.body
  names : AllNamed (askedNames context model) declaration.body.names

section Bodies

variable (context : RenderContext)

theorem selectorsOf_hands (name : String) (fields : List Field) :
    HandsOut (selectorsOf context name fields)
      (fields.map fun field => (.value, selectorName name field.name))
      fun selectors given =>
        List.Forall₂ (fun field selector => selector.property = field.rawName ∧
          selector.type = field.type) fields selectors ∧
        given = selectors.map fun selector => (.value, selector.name) :=
  HandsOut.mapEach fun _ => (valueName_hands context _ _).map fun _ _ hown => ⟨⟨rfl, rfl⟩, hown⟩

/-- Each of several texts gets a constructor. -/
theorem constructors_hand (texts : List String) (raw preferred : String → String) :
    HandsOut (texts.mapM fun text => do
        let constructor ← constructorName (raw text) (preferred text)
        return (constructor, text))
      (texts.map fun text => (.constructor, preferred text))
      fun constructors given => constructors.map Prod.snd = texts ∧
        given = constructors.map fun (constructor, _) => (.constructor, constructor) := by
  have hall := @HandsOut.mapEach _ _ texts (fun text => do
      let constructor ← constructorName (raw text) (preferred text)
      return (constructor, text)) (fun text => (.constructor, preferred text))
    (fun text entry => entry.2 = text) (fun entry => (.constructor, entry.1))
    fun _ => (constructorName_hands _ _).map fun _ _ hown => ⟨rfl, hown⟩
  refine hall.mono fun constructors given h => ⟨?_, h.2⟩
  rw [← List.forall₂_eq_eq_eq, List.forall₂_map_left_iff]
  exact h.1.flip

variable (title : String) (discriminator : Option Discriminator)

theorem recordBody_hands (name : String) (fields : List Field) :
    HandsOut (recordBody context name fields) (recordNames name fields)
      fun body given => Shows title discriminator (.record fields) body ∧ given = body.names := by
  unfold recordBody recordNames
  split
  · rename_i hempty
    obtain rfl := List.isEmpty_iff.1 hempty
    exact HandsOut.pure ⟨.unit, rfl⟩
  · rename_i hfull
    refine (selectorsOf_hands context name fields).bind fun selectors own hselectors => ?_
    obtain ⟨hfields, rfl⟩ := hselectors
    refine (valueName_hands context _ _).bind fun options own hown => ?_
    subst hown
    refine (valueName_hands context _ _).map fun label own hown => ?_
    subst hown
    exact ⟨.record (by simpa using hfull) hfields, rfl⟩

theorem enumBody_hands (name : String) (values : List String) :
    HandsOut (enumBody context name title values)
      (values.map fun value =>
        (.constructor, name ++ context.target.convention.base .variant value))
      fun body given => Shows title discriminator (.enum values) body ∧ given = body.names := by
  unfold enumBody
  split
  · rename_i hempty
    obtain rfl := List.isEmpty_iff.1 hempty
    exact HandsOut.pure ⟨.noValues, rfl⟩
  · rename_i hfull
    refine (constructors_hand values _ _).map fun constructors given hconstructors => ?_
    obtain ⟨rfl, rfl⟩ := hconstructors
    exact ⟨.enum (by simpa using hfull), rfl⟩

theorem unionBody_hands (name : String) (variants : List String) :
    HandsOut (unionBody name variants discriminator)
      (variants.map fun variant => (.constructor, name ++ variant))
      fun body given => Shows title discriminator (.union variants) body ∧ given = body.names := by
  unfold unionBody
  split
  · rename_i hempty
    obtain rfl := List.isEmpty_iff.1 hempty
    exact HandsOut.pure ⟨.noVariants, rfl⟩
  · rename_i hfull
    refine (constructors_hand variants _ _).map fun constructors given hconstructors => ?_
    obtain ⟨rfl, rfl⟩ := hconstructors
    exact ⟨.union (by simpa using hfull), rfl⟩

end Bodies

/-- A declaration of a model hands out what the model asks for. -/
theorem modelDeclaration_hands (context : RenderContext) (model : Model) :
    HandsOut (modelDeclaration context model) (askedNames context model)
      fun declaration given => DeclaresType context model declaration ∧
        given = declaration.body.names := by
  have hbody : HandsOut (modelDeclaration context model) (askedNames context model)
      fun declaration given => (declaration.name = model.name ∧
        Shows model.rawName model.discriminator model.shape declaration.body) ∧
        given = declaration.body.names := by
    obtain ⟨name, raw, description, shape, discriminator⟩ := model
    cases shape with
    | record fields =>
      exact (recordBody_hands context raw discriminator name fields).map
        fun body given h => ⟨⟨rfl, h.1⟩, h.2⟩
    | enum values =>
      exact (enumBody_hands context raw discriminator name values).map
        fun body given h => ⟨⟨rfl, h.1⟩, h.2⟩
    | union variants =>
      exact (unionBody_hands raw discriminator name variants).map
        fun body given h => ⟨⟨rfl, h.1⟩, h.2⟩
    | «alias» type => exact HandsOut.pure ⟨⟨rfl, .alias type⟩, rfl⟩
  refine hbody.allNamed.mono fun declaration given h => ?_
  obtain ⟨⟨⟨hname, hshows⟩, rfl⟩, hnamed⟩ := h
  exact ⟨⟨hname, hshows, hnamed⟩, rfl⟩

/-! ## The names of the module -/

/-- A scope of different names holds these names. -/
theorem keys_scopeOf {names : List String} (h : names.Nodup) :
    (scopeOf names).owners.keys = names.reverse := by
  have hrest : ∀ (names : List String) (scope : NameScope), names.Nodup →
      (∀ name ∈ names, name ∉ scope.owners.keys ∧ scope.get? name = none) →
      (names.foldl (fun scope name => (scope.claim [] name name).2) scope).owners.keys =
        names.reverse ++ scope.owners.keys := by
    intro names
    induction names with
    | nil => simp
    | cons name names ih =>
      intro scope honce hnew
      obtain ⟨hother, honce⟩ := List.nodup_cons.1 honce
      obtain ⟨⟨hfree, hget⟩, hnew⟩ := List.forall_mem_cons.1 hnew
      have howner : scope.owner? name = none := by
        rw [← NameScope.isTaken_iff, NameScope.isTaken] at hfree
        simpa using hfree
      have hclaim : (scope.claim [] name name).2 = scope.record name name := by
        simp [NameScope.claim, hget, NameScope.claimFresh, howner]
      rw [List.foldl_cons, hclaim, ih _ honce]
      · rw [List.reverse_cons, List.append_assoc]
        rfl
      · intro own hown
        have hne : name ≠ own := fun heq => hother (heq ▸ hown)
        refine ⟨?_, ?_⟩
        · rw [← NameScope.isTaken_iff, NameScope.isTaken_record, not_or]
          exact ⟨hne.symm, NameScope.isTaken_iff.not.2 (hnew own hown).1⟩
        · rw [NameScope.get?_record_of_ne scope hne]
          exact (hnew own hown).2
  simpa [scopeOf, NameScope.empty, Entries.keys] using
    hrest names .empty h fun _ _ => ⟨by simp [NameScope.empty, Entries.keys], rfl⟩

def TypesModule.names (types : TypesModule) : List (NameKind × String) :=
  types.declarations.flatMap fun declaration => declaration.body.names

/-- The module of types of an interface: what it declares, under which names. -/
structure TypesModule.IsFor (context : RenderContext) (types : TypesModule) : Prop where
  module : types.module = moduleName context
  declares : List.Forall₂ (DeclaresType context) (declaredTypes context.api) types.declarations
  /-- Functions and fields have different names. -/
  values : (namesOf .value types.names).Nodup
  /-- Constructors have different names that no type has. -/
  constructors : (typeNames context ++ namesOf .constructor types.names).Nodup
  /-- A name that a type asks for is handed out, to this type or another, or is that of a type. -/
  taken : ∀ model ∈ declaredTypes context.api, ∀ entry ∈ askedNames context model,
    entry ∈ types.names ∨ entry.1 = .constructor ∧ entry.2 ∈ typeNames context

theorem exists_typesModule {context : RenderContext} (h : context.api.RefersToItself)
    (hnames : (typeNames context).Nodup) :
    ∃ types, typesModule context = .ok types ∧ types.IsFor context := by
  let start : ModuleNames := ⟨scopeOf (typeNames context), .empty, []⟩
  have hall := @HandsOut.mapM _ _ (declaredTypes context.api) _ _ _ _
    (modelDeclaration_hands context) start
  rw [← declarations_eq_mapM] at hall
  obtain ⟨given, hhands, hdeclares, rfl⟩ := hall
  refine ⟨.ofContext context, typesModule_eq_ok h, rfl, hdeclares, (hhands.new .value).once,
    ?_, ?_⟩
  · obtain ⟨honce, hnew⟩ := hhands.new .constructor
    refine List.nodup_append.2 ⟨hnames, honce, ?_⟩
    rintro name hname _ hgiven rfl
    refine hnew name hgiven ?_
    rw [show start.scope .constructor = scopeOf (typeNames context) from rfl, keys_scopeOf hnames]
    exact List.mem_reverse.2 hname
  · intro model hmodel entry hentry
    have htaken := hhands.taken entry (List.mem_flatMap.2 ⟨model, hmodel, hentry⟩)
    rw [hhands.held, List.mem_append, List.mem_reverse, mem_namesOf] at htaken
    obtain hgiven | hheld := htaken
    · exact .inl hgiven
    · obtain ⟨kind, name⟩ := entry
      cases kind with
      | value => simp [start, ModuleNames.scope, NameScope.empty, Entries.keys] at hheld
      | constructor =>
        refine .inr ⟨rfl, ?_⟩
        rw [show start.scope .constructor = scopeOf (typeNames context) from rfl,
          keys_scopeOf hnames] at hheld
        exact List.mem_reverse.1 hheld

/-- The constructors of a declared type: that of a record or a new type is named like the type. -/
def Declaration.constructors (declaration : Declaration) : List String :=
  match declaration.body with
  | .unit | .record .. | .newtype _ => [declaration.name]
  | .enum _ constructors | .union constructors _ => constructors.map Prod.fst

namespace TypesModule.IsFor

variable {context : RenderContext} {types : TypesModule} (h : types.IsFor context)
include h

theorem map_name : types.declarations.map Declaration.name = typeNames context := by
  rw [← map_name_declaredTypes, ← List.forall₂_eq_eq_eq, List.forall₂_map_left_iff,
    List.forall₂_map_right_iff]
  exact h.declares.flip.imp fun _ _ hdeclares => hdeclares.name

theorem nodup_typeNames : (typeNames context).Nodup :=
  (List.nodup_append.1 h.constructors).1

/-- No two constructors of the module have the same name. -/
theorem nodup_constructors : (types.declarations.flatMap Declaration.constructors).Nodup := by
  have hcount : ∀ (declarations : List Declaration) (name : String),
      (declarations.flatMap Declaration.constructors).count name ≤
        (declarations.map Declaration.name ++
          namesOf .constructor (declarations.flatMap (·.body.names))).count name := by
    intro declarations name
    induction declarations with
    | nil => simp
    | cons declaration declarations ih =>
      have hown : declaration.constructors.count name ≤
          [declaration.name].count name +
            (namesOf .constructor declaration.body.names).count name := by
        unfold Declaration.constructors DeclarationBody.names
        cases declaration.body <;> simp [namesOf_map]
      simp only [List.flatMap_cons, List.map_cons, namesOf_append, List.count_append,
        List.count_cons, List.count_nil] at ih hown ⊢
      omega
  refine List.nodup_iff_count_le_one.2 fun name => (hcount types.declarations name).trans ?_
  rw [h.map_name]
  exact List.nodup_iff_count_le_one.1 h.constructors name

end TypesModule.IsFor

end ServantGen.Haskell
