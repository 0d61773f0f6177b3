import ServantGen.Proofs.Haskell.CapturedNames

/-!
# Names that two modules define

Fields and constructors are exported by the module of types, and the module of the interface imports
them without qualification and defines names of its own. The name of a field is put together from
the names of its model and its property, and it is compared with other names only when it has to be
numbered. So it is the name of a function of the other module exactly where the two parts make that
name up, and a constructor is that of the record of handlers exactly where some value or variant
asks for it.
-/

namespace ServantGen

namespace Text

theorem toLower_inj {c d : Char} (hc : c.isUpper = true) (hd : d.isUpper = true)
    (h : c.toLower = d.toLower) : c = d := by
  have hnat := congrArg Char.toNat h
  rw [toNat_toLower hc, toNat_toLower hd] at hnat
  exact Char.toNat_inj.1 (by omega)

end Text

namespace Haskell

open Text (isCapitalOrDigit)

/-! ## Names in two parts -/

/-- Names of types that differ do so behind a small first letter. -/
theorem lowerFirst_inj {first second : String} (hfirst : IsConstructorName first)
    (hsecond : IsConstructorName second) (h : lowerFirst first = lowerFirst second) :
    first = second := by
  have hcons : ∀ {name : String}, IsConstructorName name → ∃ c cs, name.toList = c :: cs ∧
      c.isUpper = true ∧ (lowerFirst name).toList = c.toLower :: cs := by
    rintro name ⟨⟨hne, -⟩, hupper⟩
    obtain ⟨c, cs, hcs⟩ := List.exists_cons_of_ne_nil (mt String.toList_eq_nil_iff.1 hne)
    refine ⟨c, cs, hcs, by simpa [hcs] using hupper, ?_⟩
    simp [lowerFirst, hcs]
  obtain ⟨c, cs, hcs, hc, hlower⟩ := hcons hfirst
  obtain ⟨d, ds, hds, hd, hlower'⟩ := hcons hsecond
  rw [← String.toList_inj, hlower, hlower', List.cons_eq_cons] at h
  rw [← String.toList_inj, hcs, hds, Text.toLower_inj hc hd h.1, h.2]

/-- A name that a field asks for is cut where a capital or a digit stands. -/
theorem exists_cut_of_selectorName_eq {model field name : String}
    (hfield : Text.Casing.pascal.apply field ≠ "") (h : selectorName model field = name) :
    ∃ n < name.toList.length, ((name.toList.drop n).head?.any isCapitalOrDigit) = true ∧
      lowerFirst model = String.ofList (name.toList.take n) ∧
      Text.Casing.pascal.apply field = String.ofList (name.toList.drop n) := by
  obtain ⟨c, cs, hcs⟩ :=
    List.exists_cons_of_ne_nil (mt String.toList_eq_nil_iff.1 hfield)
  have hc : isCapitalOrDigit c = true :=
    Text.isCapitalOrDigit_of_head?_pascal (by rw [hcs]; rfl)
  have hlist : name.toList = (lowerFirst model).toList ++ c :: cs := by
    rw [← h, selectorName, String.toList_append, hcs]
  refine ⟨(lowerFirst model).toList.length, ?_, ?_, ?_, ?_⟩
  · rw [hlist, List.length_append, List.length_cons]
    omega
  · simpa [hlist] using hc
  · rw [hlist, List.take_left', String.ofList_toList]
    rfl
  · rw [hlist, List.drop_left' rfl, ← hcs, String.ofList_toList]

/-- A model of a name has a field that is written in a way. -/
def HasField (api : Api) (model field : String) : Prop :=
  ∃ own ∈ api.models.models, own.name = model ∧
    ∃ entry ∈ own.fields, Text.Casing.pascal.apply entry.name = field

instance (api : Api) (model field : String) : Decidable (HasField api model field) :=
  inferInstanceAs (Decidable (∃ own ∈ api.models.models, own.name = model ∧
    ∃ entry ∈ own.fields, Text.Casing.pascal.apply entry.name = field))

def AsksForField (api : Api) (name : String) : Prop :=
  ∃ model ∈ api.models.models, ∃ field ∈ model.fields, selectorName model.name field.name = name

section Fields

variable {api : Api}

theorem asksForField_of_hasField {model field : String} (h : HasField api model field) :
    AsksForField api (lowerFirst model ++ field) := by
  obtain ⟨own, hown, rfl, entry, hentry, rfl⟩ := h
  exact ⟨own, hown, entry, hentry, rfl⟩

/-- A field asks for a name where one of the cuts of the name is that of its model. -/
theorem AsksForField.exists_hasField (hspelled : api.WellSpelled) {name : String}
    (h : AsksForField api name) : ∃ n < name.toList.length,
      ((name.toList.drop n).head?.any isCapitalOrDigit) = true ∧
      ∃ model, IsConstructorName model ∧ lowerFirst model = String.ofList (name.toList.take n) ∧
        HasField api model (String.ofList (name.toList.drop n)) := by
  obtain ⟨model, hmodel, field, hfield, heq⟩ := h
  obtain ⟨n, hn, hcut, hfirst, hrest⟩ :=
    exists_cut_of_selectorName_eq (hspelled.fields model hmodel field hfield) heq
  have hname := hspelled.types model.name
    (List.mem_append_left _ (List.mem_map_of_mem (f := Model.name) hmodel))
  exact ⟨n, hn, hcut, model.name, hname, hfirst, model, hmodel, rfl, field, hfield, hrest⟩

theorem asksForField_emptyServer_iff (hspelled : api.WellSpelled) :
    AsksForField api "emptyServer" ↔ HasField api "Empty" "Server" := by
  constructor
  · intro h
    obtain ⟨n, hn, hcut, model, hmodel, hfirst, hfield⟩ := h.exists_hasField hspelled
    have hcuts : ∀ n < "emptyServer".toList.length,
        (("emptyServer".toList.drop n).head?.any isCapitalOrDigit) = true → n = 5 := by decide
    obtain rfl := hcuts n hn hcut
    obtain rfl := @lowerFirst_inj _ "Empty" hmodel (by decide) (hfirst.trans (by decide))
    exact hfield
  · exact asksForField_of_hasField

/-- The name of the server has a capital in two places, but no model is named `Server`. -/
theorem asksForField_serverFromBackend_iff (hspelled : api.WellSpelled)
    (hserver : "Server" ∉ api.models.names) :
    AsksForField api "serverFromBackend" ↔ HasField api "ServerFrom" "Backend" := by
  constructor
  · intro h
    obtain ⟨n, hn, hcut, model, hmodel, hfirst, hfield⟩ := h.exists_hasField hspelled
    have hcuts : ∀ n < "serverFromBackend".toList.length,
        (("serverFromBackend".toList.drop n).head?.any isCapitalOrDigit) = true →
          n = 6 ∨ n = 10 := by decide
    obtain rfl | rfl := hcuts n hn hcut
    · obtain rfl := @lowerFirst_inj _ "Server" hmodel (by decide) (hfirst.trans (by decide))
      obtain ⟨own, hown, heq, -⟩ := hfield
      exact absurd (heq ▸ List.mem_map_of_mem (f := Model.name) hown) hserver
    · obtain rfl := @lowerFirst_inj _ "ServerFrom" hmodel (by decide) (hfirst.trans (by decide))
      exact hfield
  · exact asksForField_of_hasField

end Fields

/-! ## The name of the record of handlers -/

/-- A name is not longer than itself, so there are more names at least as long than longer ones. -/
theorem countP_longer_lt {taken : List String} {name : String} (h : name ∈ taken) :
    taken.countP (fun own => (name ++ "_").length ≤ own.length) <
      taken.countP (fun own => name.length ≤ own.length) := by
  have hlength : (name ++ "_").length = name.length + 1 := String.length_append name "_"
  have hperm := List.perm_cons_erase h
  have hrest : (taken.erase name).countP (fun own => (name ++ "_").length ≤ own.length) ≤
      (taken.erase name).countP (fun own => name.length ≤ own.length) := by
    refine List.countP_mono_left fun own _ hlong => ?_
    rw [decide_eq_true_eq] at hlong ⊢
    omega
  rw [hperm.countP_eq, hperm.countP_eq, List.countP_cons_of_neg (by simp [hlength]),
    List.countP_cons_of_pos (by simp)]
  omega

/-- With as many underscores as there are names at least as long, a name gets clear of all. -/
theorem clearOf_notMem {taken : List String} {fuel : Nat} {name : String}
    (h : taken.countP (fun own => name.length ≤ own.length) ≤ fuel) :
    clearOf taken fuel name ∉ taken := by
  induction fuel generalizing name with
  | zero =>
    have hnone : ∀ own ∈ taken, ¬ name.length ≤ own.length := by
      simpa [List.countP_eq_zero] using h
    exact fun hmem => hnone name hmem le_rfl
  | succ fuel ih =>
    unfold clearOf
    split
    · rename_i hmem
      have hless := countP_longer_lt (List.contains_iff_mem.1 hmem)
      exact ih (by omega)
    · rename_i hfree
      exact mt List.contains_iff_mem.2 hfree

theorem backendName_notMem_typeNames (context : RenderContext) :
    backendName context ∉ typeNames context :=
  clearOf_notMem List.countP_le_length

theorem hasNoNumber_append {name ending : String} (h : HasNoNumber ending) :
    HasNoNumber (name ++ ending) := by
  have hne : ending.toList ≠ [] := by
    intro hnil
    simp [HasNoNumber, hnil] at h
  rw [HasNoNumber, String.toList_append, List.getLast?_append_of_ne_nil _ hne]
  exact h

theorem hasNoNumber_backendName (context : RenderContext) :
    HasNoNumber (backendName context) :=
  clearOf_induction (fun _ _ => hasNoNumber_append (by decide)) _ _
    (hasNoNumber_append (by decide))

/-! ## Names that are handed out -/

section Handed

variable {context : RenderContext} {model : Model} {declaration : Declaration}

/-- The values that a type asks for are those of a record: its fields and its functions. -/
theorem mem_askedNames_value_iff {name : String} : (.value, name) ∈ askedNames context model ↔
    (∃ field ∈ model.fields, selectorName model.name field.name = name) ∨
      model.fields ≠ [] ∧ ∃ ending ∈ ["JsonOptions", "JsonField"],
        lowerFirst model.name ++ ending = name := by
  unfold askedNames Model.fields
  cases model.shape with
  | record fields => cases fields <;> simp [recordNames, eq_comm, or_assoc]
  | _ => simp

/-- What was handed out without a number was asked for. -/
theorem DeclaresType.mem_askedNames (h : DeclaresType context model declaration)
    {kind : NameKind} {name : String} (hgiven : (kind, name) ∈ declaration.body.names)
    (hplain : HasNoNumber name) : (kind, name) ∈ askedNames context model := by
  obtain ⟨⟨own, asked⟩, hasked, hkind, hnamed⟩ :=
    Outcomes.exists_of_mem_of_forall₂ h.names hgiven
  obtain rfl : kind = own := hkind
  obtain rfl : name = asked := hnamed.eq_of_hasNoNumber hplain
  exact hasked

/-- The functions of a record are named after what they are for. -/
theorem DeclaresType.functionNames_namedAfter (h : DeclaresType context model declaration) :
    ∀ name ∈ declaration.functionNames, ∃ ending ∈ ["JsonOptions", "JsonField"],
      NamedAfter (lowerFirst model.name ++ ending) name := by
  obtain ⟨name, description, body⟩ := declaration
  obtain ⟨-, hbody, hnames⟩ := h
  unfold askedNames at hnames
  dsimp only at hbody hnames
  generalize model.shape = shape at hbody hnames
  cases hbody with
  | @record fields selectors options label hne hfields =>
    have hfull : ¬ fields.isEmpty = true := by simpa using hne
    simp only [recordNames, if_neg hfull, DeclarationBody.names] at hnames
    -- As many fields as selectors stand in front of the functions.
    have hfunctions := List.forall₂_drop_append _ _ _ hnames
    rw [List.drop_left' (by simpa using hfields.length_eq)] at hfunctions
    obtain ⟨hoptions, hfunctions⟩ := List.forall₂_cons.1 hfunctions
    obtain ⟨hlabel, -⟩ := List.forall₂_cons.1 hfunctions
    refine List.forall_mem_cons.2 ⟨⟨_, List.mem_cons_self, hoptions.2⟩,
      List.forall_mem_singleton.2 ⟨_, List.mem_cons_of_mem _ List.mem_cons_self, hlabel.2⟩⟩
  | _ => simp [Declaration.functionNames]

end Handed

namespace TypesModule.IsFor

variable {context : RenderContext} {types : TypesModule} (h : types.IsFor context)
include h

/-- A name without a number, and not that of a type, is handed out where it is asked for. -/
theorem mem_names_iff {kind : NameKind} {name : String} (hplain : HasNoNumber name)
    (hfree : kind = .constructor → name ∉ typeNames context) :
    (kind, name) ∈ types.names ↔
      ∃ model ∈ declaredTypes context.api, (kind, name) ∈ askedNames context model := by
  constructor
  · intro hentry
    obtain ⟨declaration, hmem, hentry⟩ := List.mem_flatMap.1 hentry
    obtain ⟨model, hmodel, hdeclares⟩ := Outcomes.exists_of_mem_of_forall₂ h.declares hmem
    exact ⟨model, hmodel, hdeclares.mem_askedNames hentry hplain⟩
  · rintro ⟨model, hmodel, hentry⟩
    obtain hgiven | ⟨hkind, htype⟩ := h.taken model hmodel _ hentry
    · exact hgiven
    · exact absurd htype (hfree hkind)

/-- A field has a name that is not like that of a function where some field asks for it. -/
theorem mem_fieldNames_iff {name : String} (hplain : HasNoNumber name)
    (hfields : ∀ ending ∈ ["JsonOptions", "JsonField"], ¬ ending.toList <:+ name.toList) :
    name ∈ fieldNames (types.declarations.map Declaration.readType) ↔
      AsksForField context.api name := by
  have hfunction : ∀ ending ∈ ["JsonOptions", "JsonField"], ∀ first : String,
      first ++ ending ≠ name := by
    rintro ending hending first rfl
    exact hfields ending hending (String.toList_append ▸ List.suffix_append _ _)
  rw [fieldNames_readType, List.mem_flatMap]
  constructor
  · rintro ⟨declaration, hmem, hname⟩
    have hgiven : (.value, name) ∈ declaration.body.names := by
      rw [← mem_namesOf, declaration.namesOf_value]
      exact List.mem_append_left _ hname
    obtain ⟨model, hmodel, hdeclares⟩ := Outcomes.exists_of_mem_of_forall₂ h.declares hmem
    have hasked := mem_askedNames_value_iff.1 (hdeclares.mem_askedNames hgiven hplain)
    obtain ⟨field, hfield, heq⟩ | ⟨-, ending, hending, heq⟩ := hasked
    · obtain hmodel | hinline := List.mem_append.1 hmodel
      · exact ⟨model, hmodel, field, hfield, heq⟩
      · obtain ⟨inline, -, rfl⟩ := List.mem_map.1 hinline
        simp [InlineEnum.asModel, Model.fields] at hfield
    · exact absurd heq (hfunction ending hending _)
  · rintro ⟨model, hmodel, field, hfield, heq⟩
    have hgiven : (.value, name) ∈ types.names :=
      (h.mem_names_iff hplain (by simp)).2 ⟨model, List.mem_append_left _ hmodel,
        mem_askedNames_value_iff.2 (.inl ⟨field, hfield, heq⟩)⟩
    obtain ⟨declaration, hmem, hgiven⟩ := List.mem_flatMap.1 hgiven
    rw [← mem_namesOf, declaration.namesOf_value] at hgiven
    refine ⟨declaration, hmem, (List.mem_append.1 hgiven).resolve_right fun hname => ?_⟩
    obtain ⟨own, -, hdeclares⟩ := Outcomes.exists_of_mem_of_forall₂ h.declares hmem
    obtain ⟨ending, hending, hnamed⟩ := hdeclares.functionNames_namedAfter name hname
    exact hfunction ending hending _ (hnamed.eq_of_hasNoNumber hplain).symm

/-- A constructor that is not named like a type has a name where some value or variant asks for
it. -/
theorem mem_constructorNames_iff {name : String} (hplain : HasNoNumber name)
    (hfree : name ∉ typeNames context) :
    name ∈ constructorNames (types.declarations.map Declaration.readType) ↔
      ∃ model ∈ declaredTypes context.api, (.constructor, name) ∈ askedNames context model := by
  rw [← h.mem_names_iff hplain fun _ => hfree, constructorNames_readType, names]
  simp only [List.mem_flatMap]
  refine exists_congr fun declaration => and_congr_right fun hmem => ?_
  have hname : declaration.name ≠ name := by
    rintro rfl
    exact hfree (h.map_name ▸ List.mem_map_of_mem hmem)
  unfold Declaration.constructors DeclarationBody.names
  cases declaration.body <;> simp [hname.symm]

end TypesModule.IsFor

/-! ## A lowered interface -/

/-- Which names the fields and constructors of the module of types share with the module of the
interface. -/
structure SharesNames (context : RenderContext) (types : List ReadType) : Prop where
  /-- The interface and the words of the language have small letters only, and no field has. -/
  api : "api" ∉ fieldNames types
  keywords : ∀ word ∈ keywords, word ∉ fieldNames types
  emptyServer : "emptyServer" ∈ fieldNames types ↔ HasField context.api "Empty" "Server"
  server : "serverFromBackend" ∈ fieldNames types ↔ HasField context.api "ServerFrom" "Backend"
  backend : backendName context ∈ constructorNames types ↔
    ∃ model ∈ declaredTypes context.api,
      (.constructor, backendName context) ∈ askedNames context model

/-- Where no model is named `Server`, names are shared where they are asked for. -/
theorem TypesModule.IsReadFrom.sharesNames {context : RenderContext} {types : TypesModule}
    {read : List (List String)} (h : types.IsReadFrom context read)
    (hspelled : context.api.WellSpelled) (hserver : "Server" ∉ context.api.models.names) :
    SharesNames context (types.declarations.map Declaration.readType) := by
  have hfields : ∀ name ∈ fieldNames (types.declarations.map Declaration.readType),
      NameKind.value.IsSpelled name := by
    rw [fieldNames_readType, List.forall_mem_flatMap]
    intro declaration hmem name hname
    refine (h.wellNamed declaration hmem).names (.value, name) ?_
    rw [← mem_namesOf, declaration.namesOf_value]
    exact List.mem_append_left _ hname
  have hlower : ∀ word ∈ "api" :: Haskell.keywords, Text.MadeOf Char.isLower word := by decide
  have hwords : ∀ word ∈ "api" :: Haskell.keywords,
      word ∉ fieldNames (types.declarations.map Declaration.readType) :=
    fun word hword hmem => (hfields word hmem).2 (hlower word hword)
  obtain ⟨hapi, hkeywords⟩ := List.forall_mem_cons.1 hwords
  exact {
    api := hapi
    keywords := hkeywords
    emptyServer := (h.isFor.mem_fieldNames_iff (by decide) (by decide)).trans
      (asksForField_emptyServer_iff hspelled)
    server := (h.isFor.mem_fieldNames_iff (by decide) (by decide)).trans
      (asksForField_serverFromBackend_iff hspelled hserver)
    backend := h.isFor.mem_constructorNames_iff (hasNoNumber_backendName context)
      (backendName_notMem_typeNames context) }

open Lowering (run Notice)

section Lowered

variable {document : Document} {settings : TargetSettings} {api : Api} {notices : List Notice}
  (h : run ⟨document, settings.apply target⟩ = some ⟨.ok api, notices⟩)
  (hkeys : document.tree.hasDistinctKeys = true)
include h hkeys

theorem server_notMem_names : "Server" ∉ api.models.names := by
  have hreserved : "Server" ∈ (settings.apply target).reserved :=
    List.mem_append_right _ (List.mem_append_left _ (by decide))
  have hfree := Lowering.notMem_typeNames_of_mem_reserved h hkeys rfl hreserved (by decide)
  exact fun hmem => hfree (List.mem_append_left _ hmem)

/-- Whatever document an interface was lowered from, and whatever was set for the target, the module
of types, where there is one, exports no function of the module of the interface and not its
constructor, unless a field, a value or a variant asks for that name. -/
theorem names_shared_where_asked_for :
    let context : RenderContext := ⟨api, settings.apply target⟩
    (typeNames context = [] ∧ typesTemplate.render context .api = .ok .elided) ∨
      ∃ text notes types, typesTemplate.render context .api = .ok (.file text notes) ∧
        typesIn? (declarationsOf text) = some types ∧
        exportsOf (declarationsOf text) =
          types.map (fun type => TypesModule.exportedItem type.name) ∧
        SharesNames context types := by
  intro context
  have hspelled : api.WellSpelled := Lowering.wellSpelled_of_run_eq_ok h hkeys rfl
  obtain hnone | ⟨types, text, hrender, hread⟩ := elided_or_isReadFrom h hkeys
  · exact .inl hnone
  · refine .inr ⟨text, types.notes, _, hrender, hread.typesIn?_eq, ?_,
      hread.sharesNames hspelled (server_notMem_names h hkeys)⟩
    rw [hread.exportsOf_eq, List.map_map]
    rfl

end Lowered

/-- A schema whose name is avoided, with a field for the rest of the server's name, and a value that
begins like the name of the record of handlers. -/
theorem names_shared_where_asked_for_apart :
    let strings : Json := .object [("type", .string "string")]
    let tree : Json := .object [
      ("info", .object [("title", .string "Pet")]),
      ("paths", .object []),
      ("definitions", .object [
        ("Server", .object [("properties", .object [("from backend", strings)])]),
        ("Pet", .object [("enum", .array [.string "backend 2"])])])]
    let settings : TargetSettings := {}
    ∃ document api notices, Document.ofTree tree = .ok document ∧
      tree.hasDistinctKeys = true ∧
      run ⟨document, settings.apply target⟩ = some ⟨.ok api, notices⟩ ∧
      typeNames ⟨api, settings.apply target⟩ = ["Server_", "Pet"] ∧
      ∃ text notes types,
        typesTemplate.render ⟨api, settings.apply target⟩ .api = .ok (.file text notes) ∧
        typesIn? (declarationsOf text) = some types ∧
        SharesNames ⟨api, settings.apply target⟩ types := by
  intro strings tree settings
  have hview : ((Document.ofTree tree).toOption.bind fun document =>
      (run ⟨document, settings.apply target⟩).bind fun result => result.outcome.toOption.map
        fun api => typeNames ⟨api, settings.apply target⟩) = some ["Server_", "Pet"] := by
    decide +kernel
  have hkeys : tree.hasDistinctKeys = true := by decide +kernel
  obtain ⟨document, api, notices, hdocument, hrun, hnames⟩ := Lowering.exists_run_of_view hview
  obtain rfl := Document.eq_of_ofTree hdocument
  refine ⟨_, api, notices, hdocument, hkeys, hrun, hnames, ?_⟩
  obtain ⟨hnone, -⟩ | ⟨text, notes, types, hrender, hread, -, hshares⟩ :=
    names_shared_where_asked_for hrun hkeys
  · exact absurd (hnone.symm.trans hnames) (by simp)
  · exact ⟨text, notes, types, hrender, hread, hshares⟩

/-- A document that asks for every name that can be shared. -/
theorem names_shared :
    let strings : Json := .object [("type", .string "string")]
    let tree : Json := .object [
      ("info", .object [("title", .string "Pet")]),
      ("paths", .object []),
      ("components", .object [("schemas", .object [
        ("Empty", .object [("properties", .object [("server", strings)])]),
        ("ServerFrom", .object [("properties", .object [("backend", strings)])]),
        ("Pet", .object [("enum", .array [.string "backend"])])])])]
    let settings : TargetSettings := {}
    ∃ document api notices, Document.ofTree tree = .ok document ∧
      tree.hasDistinctKeys = true ∧
      run ⟨document, settings.apply target⟩ = some ⟨.ok api, notices⟩ ∧
      backendName ⟨api, settings.apply target⟩ = "PetBackend" ∧
      ∃ text notes types,
        typesTemplate.render ⟨api, settings.apply target⟩ .api = .ok (.file text notes) ∧
        typesIn? (declarationsOf text) = some types ∧
        "emptyServer" ∈ fieldNames types ∧ "serverFromBackend" ∈ fieldNames types ∧
        "PetBackend" ∈ constructorNames types := by
  intro strings tree settings
  have hview : ((Document.ofTree tree).toOption.bind fun document =>
      (run ⟨document, settings.apply target⟩).bind fun result => result.outcome.toOption.map
        fun api => (typeNames ⟨api, settings.apply target⟩,
          backendName ⟨api, settings.apply target⟩, decide (HasField api "Empty" "Server"),
          decide (HasField api "ServerFrom" "Backend"),
          decide (∃ model ∈ declaredTypes api, (.constructor, "PetBackend") ∈
            askedNames ⟨api, settings.apply target⟩ model))) =
      some (["Empty", "ServerFrom", "Pet"], "PetBackend", true, true, true) := by
    decide +kernel
  have hkeys : tree.hasDistinctKeys = true := by decide +kernel
  obtain ⟨document, api, notices, hdocument, hrun, hread⟩ := Lowering.exists_run_of_view hview
  simp only [Prod.mk.injEq, decide_eq_true_eq] at hread
  obtain ⟨hnames, hbackend, hempty, hserver, hconstructor⟩ := hread
  obtain rfl := Document.eq_of_ofTree hdocument
  refine ⟨_, api, notices, hdocument, hkeys, hrun, hbackend, ?_⟩
  have hspelled : api.WellSpelled := Lowering.wellSpelled_of_run_eq_ok hrun hkeys rfl
  obtain ⟨hnone, -⟩ | ⟨types, text, hrender, hread⟩ := elided_or_isReadFrom hrun hkeys
  · exact absurd (hnone.symm.trans hnames) (by simp)
  · have hshares := hread.sharesNames hspelled (server_notMem_names hrun hkeys)
    have hshared := hshares.backend
    rw [hbackend] at hshared
    exact ⟨text, types.notes, types.declarations.map Declaration.readType, hrender,
      hread.typesIn?_eq, hshares.emptyServer.2 hempty, hshares.server.2 hserver,
      hshared.2 hconstructor⟩

end Haskell

end ServantGen
