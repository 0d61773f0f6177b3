import ServantGen.Proofs.Haskell.Modules

/-!
# Instances for URLs

A reader of the module of types finds the instances of a class by their first lines. What is read
are the declarations for which instances were written: names of types, fields and constructors may
be any text, but no other line looks like the head of an instance for URLs. Which declarations have
such instances depends on the shapes of models alone, not on the names that are handed out.
-/

namespace ServantGen.Haskell

/-! ## Reading instances -/

def instanceOf? (className line : String) : Option String := do
  let rest ← Text.stripStart? ("instance " ++ className ++ " ").toList line.toList
  let name ← Text.stripEnd? " where".toList rest
  return String.ofList name

def instancesOf (className : String) (lines : List String) : List String :=
  lines.filterMap (instanceOf? className)

def urlClasses : List String :=
  ["FromHttpApiData", "ToHttpApiData"]

section Instances

variable {className line name : String}

theorem instanceOf?_eq_some_iff :
    instanceOf? className line = some name ↔ line = instanceHead className name := by
  have hhead : (instanceHead className name).toList =
      ("instance " ++ className ++ " ").toList ++ (name.toList ++ " where".toList) := by
    simp [instanceHead]
  rw [← String.toList_inj, hhead]
  constructor
  · intro h
    obtain ⟨rest, hstart, h⟩ := Option.bind_eq_some_iff.1 h
    obtain ⟨own, hend, h⟩ := Option.bind_eq_some_iff.1 h
    obtain rfl : String.ofList own = name := Option.some.inj h
    rw [Text.stripStart?_eq_some_iff.1 hstart, Text.stripEnd?_eq_some_iff.1 hend]
    simp
  · intro h
    have hstart := Text.stripStart?_eq_some_iff.2 h
    have hend : Text.stripEnd? " where".toList (name.toList ++ " where".toList) =
        some name.toList := Text.stripEnd?_eq_some_iff.2 rfl
    simp only [instanceOf?, hstart, hend, Option.bind_eq_bind, Option.bind_some, Option.pure_def,
      String.ofList_toList]

@[simp] theorem instanceOf?_instanceHead (className name : String) :
    instanceOf? className (instanceHead className name) = some name :=
  instanceOf?_eq_some_iff.2 rfl

@[simp] theorem instancesOf_append (className : String) (first rest : List String) :
    instancesOf className (first ++ rest) =
      instancesOf className first ++ instancesOf className rest :=
  List.filterMap_append

theorem firstWord_instanceHead (className name : String) :
    firstWord (instanceHead className name) = "instance" :=
  firstWord_eq "instance" (by simp [instanceHead]) (by decide)

/-- A line that opens no instance of a class for URLs. -/
def IsSilent (line : String) : Prop :=
  ∀ className ∈ urlClasses, instanceOf? className line = none

theorem isSilent_iff :
    IsSilent line ↔ ∀ className ∈ urlClasses, ∀ name, line ≠ instanceHead className name := by
  simp only [IsSilent, Option.eq_none_iff_forall_ne_some, ne_eq, instanceOf?_eq_some_iff]

theorem IsIdle.isSilent (h : IsIdle line) : IsSilent line := by
  rw [isSilent_iff]
  rintro className - name rfl
  rw [IsIdle, firstWord_instanceHead] at h
  exact h (by decide)

theorem isSilent_of_firstWord (h : firstWord line ≠ "instance") : IsSilent line := by
  rw [isSilent_iff]
  rintro className - name rfl
  exact h (firstWord_instanceHead className name)

def writtenClasses : List String :=
  "FromJSON" :: "ToJSON" :: urlClasses

/-- The instances of one class are not taken for those of another. -/
theorem instanceOf?_writtenClass {written : String} (hclass : className ∈ urlClasses)
    (hwritten : written ∈ writtenClasses) (name : String) :
    instanceOf? className (instanceHead written name) =
      if written = className then some name else none := by
  split
  · rename_i heq
    rw [heq, instanceOf?_instanceHead]
  · rename_i hne
    rw [Option.eq_none_iff_forall_ne_some]
    intro own hown
    have htext := congrArg String.toList (instanceOf?_eq_some_iff.1 hown)
    simp only [urlClasses, writtenClasses, List.mem_cons, List.not_mem_nil, or_false]
      at hclass hwritten
    obtain rfl | rfl := hclass <;> obtain rfl | rfl | rfl | rfl := hwritten <;>
      simp [instanceHead] at htext hne

/-- The head of an instance ends with its last word. -/
theorem isSilent_of_getLast? {last : Char} (h : line.toList.getLast? = some last)
    (hlast : last ≠ 'e') : IsSilent line := by
  rw [isSilent_iff]
  rintro className - name rfl
  have hend : (instanceHead className name).toList.getLast? = some 'e' := by
    rw [instanceHead, String.toList_append, List.getLast?_append]
    rfl
  exact hlast (Option.some.inj (h.symm.trans hend))

/-- Lines that open no instances add none. -/
theorem instancesOf_eq_nil (hclass : className ∈ urlClasses) {lines : List String}
    (h : ∀ line ∈ lines, IsSilent line) : instancesOf className lines = [] := by
  rw [instancesOf, List.filterMap_eq_nil_iff]
  exact fun line hline => h line hline className hclass

theorem isSilent_rowAt_succ (level : Nat) (text : String) :
    IsSilent (Code.rowAt indentStep (level + 1) text) :=
  isSilent_of_firstWord (by simp [firstWord_rowAt_succ])

end Instances

/-! ## Instances of declarations -/

def DeclarationBody.hasUrlInstances : DeclarationBody → Bool
  | .enum .. => true
  | .newtype type => isScalar type
  | .unit | .record .. | .union .. => false

def instancesIn (className : String) (code : Code) : List String :=
  instancesOf className (code.rows indentStep)

section Writing

variable {className : String} {code : Code} {level : Nat}

theorem firstWord_commentLine {mark : String} (hmark : mark = "-- |" ∨ mark = "--")
    (text : List Char) : firstWord (Code.commentLine mark text) = "--" := by
  unfold Code.commentLine
  split
  · obtain rfl | rfl := hmark <;> decide
  · obtain rfl | rfl := hmark <;> exact firstWord_eq "--" (by simp) (by decide)

/-- Documentation opens no instances. -/
theorem isSilent_of_mem_commentLines {text line : String}
    (h : line ∈ Code.commentLines "-- |" "--" text) : IsSilent line := by
  refine isSilent_of_firstWord ?_
  unfold Code.commentLines at h
  split at h
  · simp at h
  · obtain rfl | h := List.mem_cons.1 h
    · simp [firstWord_commentLine (.inl rfl)]
    · obtain ⟨own, -, rfl⟩ := List.mem_map.1 h
      simp [firstWord_commentLine (.inr rfl)]

/-- Lines that are further in open no instances. -/
theorem instancesOf_map_rowAt_succ (hclass : className ∈ urlClasses) (level : Nat)
    (texts : List String) :
    instancesOf className (texts.map (Code.rowAt indentStep (level + 1))) = [] := by
  refine instancesOf_eq_nil hclass ?_
  rw [List.forall_mem_map]
  exact fun text _ => isSilent_rowAt_succ level text

@[simp] theorem instancesIn_indent :
    instancesIn className code.indent = instancesIn className code :=
  rfl

@[simp] theorem instancesIn_dedent :
    instancesIn className code.dedent = instancesIn className code :=
  rfl

theorem instancesIn_blank (hclass : className ∈ urlClasses) :
    instancesIn className code.blank = instancesIn className code := by
  have hblank : IsSilent "" := isSilent_of_firstWord (by decide)
  rw [instancesIn, Code.rows_blank, instancesOf_append,
    instancesOf_eq_nil hclass (List.forall_mem_singleton.2 hblank), List.append_nil]
  rfl

/-- Lines at the margin that open no instances. -/
theorem instancesIn_lines (hclass : className ∈ urlClasses) (hlevel : code.level = 0)
    {lines : List String} (hlines : ∀ line ∈ lines, IsSilent line) :
    instancesIn className (code.lines lines) = instancesIn className code := by
  rw [instancesIn, Code.rows_lines, hlevel, Code.map_rowAt_zero, instancesOf_append,
    instancesOf_eq_nil hclass hlines, List.append_nil]
  rfl

theorem instancesIn_line (hclass : className ∈ urlClasses) (hlevel : code.level = 0)
    {line : String} (hline : IsSilent line) :
    instancesIn className (code.line line) = instancesIn className code :=
  instancesIn_lines hclass hlevel (List.forall_mem_singleton.2 hline)

/-- Lines that are further in. -/
theorem instancesIn_lines_inside (hclass : className ∈ urlClasses) (hlevel : 0 < code.level)
    (lines : List String) :
    instancesIn className (code.lines lines) = instancesIn className code := by
  obtain ⟨level, hlevel⟩ := Nat.exists_eq_succ_of_ne_zero (Nat.ne_of_gt hlevel)
  rw [instancesIn, Code.rows_lines, hlevel, instancesOf_append, instancesOf_map_rowAt_succ hclass,
    List.append_nil]
  rfl

theorem instancesIn_line_inside (hclass : className ∈ urlClasses) (hlevel : 0 < code.level)
    (line : String) : instancesIn className (code.line line) = instancesIn className code :=
  instancesIn_lines_inside hclass hlevel [line]

theorem writeInstance_eq (written name line : String) (code : Code) :
    writeInstance written name line code = writeCaseInstance written name line [] code := rfl

@[simp] theorem level_writeCaseInstance (written name head : String) (alternatives : List String) :
    (writeCaseInstance written name head alternatives code).level = code.level := by
  simp [writeCaseInstance]

/-- An instance at the margin is found by its class. -/
theorem instancesIn_writeCaseInstance (hclass : className ∈ urlClasses) (hlevel : code.level = 0)
    {written : String} (hwritten : written ∈ writtenClasses) (name head : String)
    (alternatives : List String) :
    instancesIn className (writeCaseInstance written name head alternatives code) =
      instancesIn className code ++ if written = className then [name] else [] := by
  have hhead : instancesIn className (code.line (instanceHead written name)) =
      instancesIn className code ++ if written = className then [name] else [] := by
    rw [instancesIn, Code.rows_line, hlevel, Code.rowAt_zero, instancesOf_append]
    nth_rewrite 2 [instancesOf]
    rw [List.filterMap_cons, instanceOf?_writtenClass hclass hwritten name]
    split <;> simp_all [instancesIn]
  simp [writeCaseInstance, instancesIn_lines_inside hclass, instancesIn_line_inside hclass, hhead]

/-- Instances for JSON are none for URLs. -/
theorem instancesIn_json (hclass : className ∈ urlClasses) (hlevel : code.level = 0)
    {written : String} (hwritten : written = "FromJSON" ∨ written = "ToJSON") (name head : String)
    (alternatives : List String) :
    instancesIn className (writeCaseInstance written name head alternatives code) =
      instancesIn className code := by
  have hne : written ≠ className := by
    rintro rfl
    obtain rfl | rfl := hwritten <;> exact absurd hclass (by decide)
  have hmem : written ∈ writtenClasses := by
    obtain rfl | rfl := hwritten <;> decide
  rw [instancesIn_writeCaseInstance hclass hlevel hmem, if_neg hne, List.append_nil]

@[simp] theorem level_writeSelector (lead : String) (selector : Selector) :
    (writeSelector lead code selector).level = code.level := by
  unfold writeSelector
  dsimp only
  split <;> simp

theorem instancesIn_writeSelector (hclass : className ∈ urlClasses) (hlevel : 0 < code.level)
    (lead : String) (selector : Selector) :
    instancesIn className (writeSelector lead code selector) = instancesIn className code := by
  unfold writeSelector
  dsimp only
  split
  · rw [instancesIn_dedent, Code.comment, instancesIn_lines_inside hclass (by simp),
      instancesIn_indent, instancesIn_line_inside hclass hlevel]
  · rw [instancesIn_line_inside hclass hlevel]

/-- Fields are further in than instances. -/
theorem instancesIn_writeSelectors (hclass : className ∈ urlClasses) (hlevel : 0 < code.level)
    (selectors : List Selector) :
    instancesIn className (writeSelectors selectors code) = instancesIn className code ∧
      (writeSelectors selectors code).level = code.level := by
  have hrest : ∀ (rest : List Selector) (code : Code), 0 < code.level →
      instancesIn className (rest.foldl (writeSelector ",") code) = instancesIn className code ∧
        (rest.foldl (writeSelector ",") code).level = code.level := by
    intro rest
    induction rest with
    | nil => exact fun _ _ => ⟨rfl, rfl⟩
    | cons selector rest ih =>
      intro code hlevel
      obtain ⟨hinstances, hsame⟩ := ih (writeSelector "," code selector) (by simpa using hlevel)
      rw [List.foldl_cons, hinstances, hsame, instancesIn_writeSelector hclass hlevel,
        level_writeSelector]
      exact ⟨rfl, rfl⟩
  cases selectors with
  | nil => exact ⟨rfl, rfl⟩
  | cons first rest =>
    obtain ⟨hinstances, hsame⟩ :=
      hrest rest (writeSelector "\x7b" code first) (by simpa using hlevel)
    rw [writeSelectors, hinstances, hsame, instancesIn_writeSelector hclass hlevel,
      level_writeSelector]
    exact ⟨rfl, rfl⟩

theorem isSilent_data (rest : String) : IsSilent ("data " ++ rest) := by
  refine isSilent_of_firstWord ?_
  rw [firstWord_eq "data" (by simp) (by decide)]
  decide

theorem isSilent_newtype (rest : String) : IsSilent ("newtype " ++ rest) := by
  refine isSilent_of_firstWord ?_
  rw [firstWord_eq "newtype" (by simp) (by decide)]
  decide

/-- Both instances for URLs add the name once to the types of either class. -/
theorem ite_urlClasses (hclass : className ∈ urlClasses) (name : String) :
    (if "FromHttpApiData" = className then [name] else []) ++
        (if "ToHttpApiData" = className then [name] else []) = [name] ∧
      (if "ToHttpApiData" = className then [name] else []) ++
        (if "FromHttpApiData" = className then [name] else []) = [name] := by
  obtain rfl | rfl : className = "FromHttpApiData" ∨ className = "ToHttpApiData" := by
    simpa [urlClasses] using hclass
  · exact ⟨rfl, rfl⟩
  · exact ⟨rfl, rfl⟩

section Bodies

variable (hclass : className ∈ urlClasses) (hlevel : code.level = 0)
include hclass hlevel

theorem instancesIn_writeUnit (name : String) :
    instancesIn className (writeUnit name code) = instancesIn className code ∧
      (writeUnit name code).level = 0 := by
  have hdata : IsSilent ("data " ++ name ++ " = " ++ name) := by
    simpa only [String.append_assoc] using isSilent_data _
  simp [writeUnit, writeInstance_eq, hlevel, hdata, instancesIn_json hclass,
    instancesIn_blank hclass, instancesIn_line hclass, instancesIn_line_inside hclass]

theorem instancesIn_writeRecord (name : String) (selectors : List Selector)
    (options label : String) :
    instancesIn className (writeRecord name selectors options label code) =
        instancesIn className code ∧
      (writeRecord name selectors options label code).level = 0 := by
  have hdata : IsSilent ("data " ++ name ++ " = " ++ name) := by
    simpa only [String.append_assoc] using isSilent_data _
  -- Options and labels may have any names: their lines are told apart by how they end.
  have hlast (text ending : String) (last : Char) (hending : ending.toList.getLast? = some last)
      (hlast : last ≠ 'e') : IsSilent (text ++ ending) := by
    refine isSilent_of_getLast? ?_ hlast
    rw [String.toList_append, List.getLast?_append, hending]
    rfl
  have hsignature := hlast options " :: Aeson.Options" 's' (by decide) (by decide)
  have hequation := hlast options " =" '=' (by decide) (by decide)
  have hlabel := hlast label " :: String -> String" 'g' (by decide) (by decide)
  have hcase := hlast label " label = case label of" 'f' (by decide) (by decide)
  obtain ⟨hselectors, hinside⟩ := @instancesIn_writeSelectors className
    (code.line ("data " ++ name ++ " = " ++ name)).indent hclass (by simp) selectors
  simp [writeRecord, writeInstance_eq, hlevel, hdata, hsignature, hequation, hlabel, hcase,
    instancesIn_json hclass, instancesIn_blank hclass, instancesIn_line hclass,
    instancesIn_line_inside hclass, instancesIn_lines_inside hclass, hselectors, hinside]

theorem instancesIn_writeEnum (name title : String) (constructors : List (String × String)) :
    instancesIn className (writeEnum name title constructors code) =
        instancesIn className code ++ [name] ∧
      (writeEnum name title constructors code).level = 0 := by
  have hto : "ToHttpApiData" ∈ writtenClasses := by decide
  have hfrom : "FromHttpApiData" ∈ writtenClasses := by decide
  simp [writeEnum, writeInstance_eq, hlevel, hto, hfrom, isSilent_data, instancesIn_json hclass,
    instancesIn_blank hclass, instancesIn_line hclass, instancesIn_line_inside hclass,
    instancesIn_lines_inside hclass, instancesIn_writeCaseInstance hclass,
    (ite_urlClasses hclass name).2]

theorem instancesIn_writeUnion (name : String) (constructors : List (String × String))
    (discriminator : Option Discriminator) :
    instancesIn className (writeUnion name constructors discriminator code) =
        instancesIn className code ∧
      (writeUnion name constructors discriminator code).level = 0 := by
  have hhead : IsSilent (instanceHead "FromJSON" name) := fun other hother => by
    rw [instanceOf?_writtenClass hother (by decide), if_neg]
    rintro rfl
    exact absurd hother (by decide)
  have hreader : ∀ code : Code, 0 < code.level →
      instancesIn className (writeUnionReader name constructors discriminator code) =
          instancesIn className code ∧
        (writeUnionReader name constructors discriminator code).level = code.level := by
    intro code hinside
    unfold writeUnionReader
    split <;> simp [hinside, instancesIn_line_inside hclass, instancesIn_lines_inside hclass]
  have hread := fun code hinside => (hreader code hinside).1
  have hbehind := fun code hinside => (hreader code hinside).2
  simp [writeUnion, hlevel, hhead, isSilent_data, instancesIn_json hclass,
    instancesIn_blank hclass, instancesIn_line hclass, instancesIn_line_inside hclass,
    instancesIn_lines_inside hclass, hread, hbehind]

theorem instancesIn_writeNewtype (name : String) (type : DataType) :
    instancesIn className (writeNewtype name type code) =
        instancesIn className code ++ (if isScalar type then [name] else []) ∧
      (writeNewtype name type code).level = 0 := by
  have hto : "ToHttpApiData" ∈ writtenClasses := by decide
  have hfrom : "FromHttpApiData" ∈ writtenClasses := by decide
  have hnewtype : IsSilent ("newtype " ++ name ++ " = " ++ name ++ " " ++ atomText type) := by
    simpa only [String.append_assoc] using isSilent_newtype _
  unfold writeNewtype
  dsimp only
  split
  · simp [writeInstance_eq, hlevel, hto, hfrom, hnewtype, instancesIn_json hclass,
      instancesIn_blank hclass, instancesIn_line hclass, instancesIn_line_inside hclass,
      instancesIn_writeCaseInstance hclass, (ite_urlClasses hclass name).1]
  · simp [writeInstance_eq, hlevel, hnewtype, instancesIn_json hclass,
      instancesIn_blank hclass, instancesIn_line hclass, instancesIn_line_inside hclass]

/-- A declaration adds its name to the types of either class, if it has instances for URLs. -/
theorem instancesIn_write (declaration : Declaration) :
    instancesIn className (declaration.write code) = instancesIn className code ++
        (if declaration.body.hasUrlInstances then [declaration.name] else []) ∧
      (declaration.write code).level = 0 := by
  obtain ⟨name, description, body⟩ := declaration
  obtain ⟨documented, hwrite, hinstances, hmargin⟩ : ∃ documented : Code,
      Declaration.write ⟨name, description, body⟩ code =
        Declaration.write ⟨name, none, body⟩ documented ∧
      instancesIn className documented = instancesIn className code ∧ documented.level = 0 := by
    cases description with
    | none => exact ⟨code, rfl, rfl, hlevel⟩
    | some text =>
      refine ⟨code.comment "-- |" "--" text, rfl, ?_, by simpa using hlevel⟩
      exact instancesIn_lines hclass hlevel fun line => isSilent_of_mem_commentLines
  rw [hwrite, ← hinstances]
  cases body with
  | unit =>
    simpa [Declaration.write, DeclarationBody.hasUrlInstances] using
      instancesIn_writeUnit hclass hmargin name
  | record selectors options label =>
    simpa [Declaration.write, DeclarationBody.hasUrlInstances] using
      instancesIn_writeRecord hclass hmargin name selectors options label
  | enum title constructors => exact instancesIn_writeEnum hclass hmargin name title constructors
  | union constructors discriminator =>
    simpa [Declaration.write, DeclarationBody.hasUrlInstances] using
      instancesIn_writeUnion hclass hmargin name constructors discriminator
  | newtype type => exact instancesIn_writeNewtype hclass hmargin name type

end Bodies

end Writing

/-! ## The module of types -/

namespace TypesModule

variable (context : RenderContext) (types : TypesModule)

def head : Code :=
  Code.empty
    |>.lines (["DeriveGeneric", "OverloadedStrings"].map pragma)
    |>.blank
    |>.lines (headerComment context "Types")
    |>.line ("module " ++ types.module ++ ".Types")
    |> writeExports types.exports
    |>.lines (importLines types.imports)
    |>.line "import qualified Data.Aeson as Aeson"

theorem code_eq_foldl : types.code context =
    types.declarations.foldl (fun code declaration => declaration.write code.blank)
      (types.head context) := rfl

@[simp] theorem level_head : (types.head context).level = 0 := by
  simp [head, writeExports]

variable {className : String} (hclass : className ∈ urlClasses)
include hclass

theorem instancesIn_head : instancesIn className (types.head context) = [] := by
  have hpragmas : ∀ line ∈ ["DeriveGeneric", "OverloadedStrings"].map pragma, IsSilent line := by
    rw [List.forall_mem_map]
    exact fun name _ => (isIdle_pragma name).isSilent
  have hheader : ∀ line ∈ headerComment context "Types", IsSilent line := by
    simp only [headerComment, List.forall_mem_cons, List.not_mem_nil, false_imp_iff, implies_true,
      and_true]
    refine ⟨(isIdle_comment ?_).isSilent, isSilent_of_firstWord (by decide),
      isSilent_of_firstWord (by decide)⟩
    simp
  have hmodule : IsSilent ("module " ++ types.module ++ ".Types") := by
    refine isSilent_of_firstWord ?_
    rw [firstWord_eq "module" (by simp) (by decide)]
    decide
  have himports : ∀ line ∈ importLines types.imports, IsSilent line := by
    unfold importLines
    rw [List.forall_mem_map]
    intro module _
    refine isSilent_of_firstWord ?_
    rw [firstWord_eq "import" (by simp) (by decide)]
    decide
  have hqualified : IsSilent "import qualified Data.Aeson as Aeson" :=
    isSilent_of_firstWord (by decide)
  rw [head, instancesIn_line hclass (by simp [writeExports]) hqualified,
    instancesIn_lines hclass (by simp [writeExports]) himports, writeExports,
    instancesIn_blank hclass, instancesIn_dedent, instancesIn_line_inside hclass (by simp),
    instancesIn_lines_inside hclass (by simp), instancesIn_indent,
    instancesIn_line hclass (by simp) hmodule, instancesIn_lines hclass (by simp) hheader,
    instancesIn_blank hclass, instancesIn_lines hclass rfl hpragmas]
  rfl

/-- The instances of the module are those of its declarations. -/
theorem instancesIn_code : instancesIn className (types.code context) =
    (types.declarations.filter (·.body.hasUrlInstances)).map Declaration.name := by
  have hrest : ∀ (declarations : List Declaration) (code : Code), code.level = 0 →
      instancesIn className
          (declarations.foldl (fun code declaration => declaration.write code.blank) code) =
        instancesIn className code ++
          (declarations.filter (·.body.hasUrlInstances)).map Declaration.name := by
    intro declarations
    induction declarations with
    | nil => simp
    | cons declaration declarations ih =>
      intro code hlevel
      obtain ⟨hinstances, hmargin⟩ :=
        @instancesIn_write className code.blank hclass (by simpa using hlevel) declaration
      rw [List.foldl_cons, ih _ hmargin, hinstances, instancesIn_blank hclass, List.filter_cons]
      split <;> simp
  rw [code_eq_foldl, hrest _ _ (level_head context types), instancesIn_head context types hclass,
    List.nil_append]

end TypesModule

/-! ## Declared types -/

section Declared

variable {α β : Type}

/-- Whatever names are taken, what is answered is right. -/
def Always (m : NamesM α) (right : α → Prop) : Prop :=
  ∀ names, right (m.run names).1

theorem Always.pure {value : α} {right : α → Prop} (h : right value) : Always (pure value) right :=
  fun _ => h

theorem Always.bind {m : NamesM α} {next : α → NamesM β} {middle : α → Prop} {right : β → Prop}
    (h : Always m middle) (hnext : ∀ value, middle value → Always (next value) right) :
    Always (m >>= next) right :=
  fun names => hnext _ (h names) _

theorem Always.any (m : NamesM α) : Always m fun _ => True :=
  fun _ => trivial

theorem Always.mapM {items : List α} {action : α → NamesM β} {each : α → β → Prop}
    (h : ∀ item, Always (action item) (each item)) :
    Always (items.mapM action) (List.Forall₂ each items) := by
  induction items with
  | nil => exact Always.pure .nil
  | cons item items ih =>
    rw [List.mapM_cons]
    refine (h item).bind fun value hvalue => ih.bind fun values hvalues => ?_
    exact Always.pure (.cons hvalue hvalues)

/-- Whether values of a model can be written into a URL. -/
def hasUrlShape : Shape → Bool
  | .enum _ => true
  | .alias type => isScalar type
  | .record _ | .union _ => false

/-- A declaration under a name, with or without instances for URLs. -/
structure Declares (name : String) (travels : Bool) (declaration : Declaration) : Prop where
  name : declaration.name = name
  instances : declaration.body.hasUrlInstances = travels

theorem enumBody_hasUrlInstances (context : RenderContext) (name title : String)
    (values : List String) :
    Always (enumBody context name title values) (·.hasUrlInstances = true) := by
  unfold enumBody
  split
  · exact Always.pure rfl
  · exact (Always.any _).bind fun _ _ => Always.pure rfl

theorem recordBody_hasUrlInstances (context : RenderContext) (name : String)
    (fields : List Field) :
    Always (recordBody context name fields) (·.hasUrlInstances = false) := by
  unfold recordBody
  split
  · exact Always.pure rfl
  · refine (Always.any _).bind fun _ _ => (Always.any _).bind fun _ _ => ?_
    exact (Always.any _).bind fun _ _ => Always.pure rfl

theorem unionBody_hasUrlInstances (name : String) (variants : List String)
    (discriminator : Option Discriminator) :
    Always (unionBody name variants discriminator) (·.hasUrlInstances = false) := by
  unfold unionBody
  split
  · exact Always.pure rfl
  · exact (Always.any _).bind fun _ _ => Always.pure rfl

theorem modelDeclaration_declares (context : RenderContext) (model : Model) :
    Always (modelDeclaration context model) (Declares model.name (hasUrlShape model.shape)) := by
  obtain ⟨name, raw, description, shape, discriminator⟩ := model
  cases shape with
  | record fields =>
    exact (recordBody_hasUrlInstances context name fields).bind fun _ h => Always.pure ⟨rfl, h⟩
  | enum values =>
    exact (enumBody_hasUrlInstances context name raw values).bind fun _ h => Always.pure ⟨rfl, h⟩
  | union variants =>
    exact (unionBody_hasUrlInstances name variants discriminator).bind
      fun _ h => Always.pure ⟨rfl, h⟩
  | «alias» type => exact Always.pure ⟨rfl, rfl⟩

theorem inlineDeclaration_declares (context : RenderContext) (inline : InlineEnum) :
    Always (inlineDeclaration context inline) (Declares inline.name true) :=
  (enumBody_hasUrlInstances context _ _ _).bind fun _ hinstances => Always.pure ⟨rfl, hinstances⟩

/-- Models are declared first, then enumerations. -/
theorem declarations_declare (context : RenderContext) :
    Always (declarations context) fun declared => ∃ models inlines, declared = models ++ inlines ∧
      List.Forall₂ (fun model => Declares model.name (hasUrlShape model.shape))
        context.api.models.models models ∧
      List.Forall₂ (fun inline => Declares inline.name true) context.api.inlineEnums inlines := by
  refine (Always.mapM (modelDeclaration_declares context)).bind fun models hmodels => ?_
  refine (Always.mapM (inlineDeclaration_declares context)).bind fun inlines hinlines => ?_
  exact Always.pure ⟨models, inlines, rfl, hmodels, hinlines⟩

end Declared

end ServantGen.Haskell
