import ServantGen.Proofs.Document.Addresses
import ServantGen.Proofs.Ledger.Api
import ServantGen.Proofs.Lowering.Calls

/-!
# Where references to named schemas lead

A reference to a named schema is followed in two ways. A type takes it by its spelling for the
model of the schema; an `allOf` walks it token by token to a node. The two agree on references
into the section in which the named schemas stand, as long as the name is one token: there the
walk ends at the very schema that the model is made from. A spelling that lead and name alone make
look like a named schema, with a slash left in the name or with the lead of the other section, is
taken for the model all the same, and the walk ends elsewhere or nowhere.
-/

namespace ServantGen

/-! ## The section of named schemas -/

theorem Entries.get?_of_mem {α : Type} {key : String} {value : α} {entries : Entries α}
    (hkeys : entries.keys.Nodup) (h : (key, value) ∈ entries) : entries.get? key = some value := by
  induction entries with
  | nil => simp at h
  | cons entry rest ih =>
    obtain ⟨hkey, hrest⟩ := List.nodup_cons.1 hkeys
    obtain rfl | h := List.mem_cons.1 h
    · simp [get?]
    · have hne : entry.1 ≠ key := fun heq => hkey (heq ▸ List.mem_map_of_mem (f := Prod.fst) h)
      rw [get?, if_neg hne, ih hrest h]

namespace Site

variable {site below : Site} {key : String}

theorem address_of_get? (h : site.get? key = some below) :
    below.address = site.address ++ [.key key] := by
  obtain ⟨node, -, rfl⟩ := Option.map_eq_some_iff.1 h
  rfl

theorem get?_of_mem_members {members : List (String × Site)}
    (hkeys : site.node.hasDistinctKeys = true) (hmembers : site.members? = some members)
    (hmem : (key, below) ∈ members) : site.get? key = some below := by
  obtain ⟨address, node⟩ := site
  cases node with
  | object fields =>
    obtain rfl := Option.some.inj hmembers
    obtain ⟨⟨name, value⟩, hfield, heq⟩ := List.mem_map.1 hmem
    obtain ⟨rfl, rfl⟩ := Prod.mk.inj heq
    have hvalue : Entries.get? name fields = some value :=
      Entries.get?_of_mem (Json.hasDistinctKeys_object.1 hkeys).1 hfield
    simp [get?, step?, Json.step?, Json.get?, hvalue]
  | _ => simp [members?, Json.object?] at hmembers

/-- A member of the object under a key is reached by two keys. -/
theorem exists_get?_of_mem_membersAt {name : String} (hkeys : site.node.hasDistinctKeys = true)
    (h : (name, below) ∈ site.membersAt key) :
    ∃ middle, site.get? key = some middle ∧ middle.get? name = some below := by
  unfold membersAt at h
  cases hmembers : (site.get? key).bind members? with
  | none => simp [hmembers] at h
  | some members =>
    rw [hmembers] at h
    obtain ⟨middle, hmiddle, hmembers⟩ := Option.bind_eq_some_iff.1 hmembers
    have hbelow := Json.hasDistinctKeys_get? hkeys (node_of_get? hmiddle)
    exact ⟨middle, hmiddle, get?_of_mem_members hbelow hmembers h⟩

end Site

namespace Document

variable {document : Document} {raw reference : String} {site : Site}

/-- A section in which named schemas can stand: the keys that lead to it from the root, and what
references into it begin with. -/
structure SchemaSection where
  keys : List String
  lead : String

def sharedSection : SchemaSection := ⟨["components", "schemas"], "#/components/schemas/"⟩

def topSection : SchemaSection := ⟨["definitions"], "#/definitions/"⟩

def schemaSection (document : Document) : SchemaSection :=
  match document.root.get? "components" with
  | some _ => sharedSection
  | none => topSection

/-- The reference to a named schema: the section, and the name as one token. -/
def schemaReference (document : Document) (raw : String) : String :=
  document.schemaSection.lead ++ String.ofList (Pointer.escape raw.toList)

/-- A reference in which nothing but one token stands behind the section of the named schemas. -/
def IsDirect (document : Document) (reference : String) : Prop :=
  ∃ token, reference.toList = document.schemaSection.lead.toList ++ token ∧ '/' ∉ token

theorem schemaSection_cases (document : Document) :
    document.schemaSection = sharedSection ∨ document.schemaSection = topSection := by
  unfold schemaSection
  cases document.root.get? "components" with
  | some components => exact .inl rfl
  | none => exact .inr rfl

/-- A reference that names a schema begins like one into a section. -/
theorem exists_section_of_namedSchema? (h : Lowering.namedSchema? reference = some raw) :
    ∃ part, (part = sharedSection ∨ part = topSection) ∧
      ∃ rest, reference.toList = part.lead.toList ++ rest ∧
        String.ofList (Pointer.unescape rest) = raw := by
  obtain ⟨rest, hrest, hraw⟩ := Option.map_eq_some_iff.1 h
  obtain ⟨lead, hlead, hstrip⟩ := List.exists_of_findSome?_eq_some hrest
  have htext := Text.stripStart?_eq_some_iff.1 hstrip
  obtain rfl | rfl : lead = sharedSection.lead ∨ lead = topSection.lead := by
    simpa [Lowering.schemaSections, sharedSection, topSection] using hlead
  · exact ⟨sharedSection, .inl rfl, rest, htext, hraw⟩
  · exact ⟨topSection, .inr rfl, rest, htext, hraw⟩

theorem namedSchema?_of_lead {rest : List Char}
    (h : reference.toList = document.schemaSection.lead.toList ++ rest) :
    Lowering.namedSchema? reference = some (String.ofList (Pointer.unescape rest)) := by
  unfold Lowering.namedSchema?
  rw [h]
  obtain hsection | hsection := document.schemaSection_cases
  · rw [hsection]
    rfl
  · rw [hsection]
    rfl

/-- A reference into a section walks through its keys. -/
theorem find?_eq_walk? (tree : Json) {part : SchemaSection}
    (hpart : part = sharedSection ∨ part = topSection) {rest : List Char}
    (h : reference.toList = part.lead.toList ++ rest) :
    Pointer.find? tree reference =
      Pointer.walk? (Site.root tree)
        (part.keys.map String.toList ++ Text.splitBy (· == '/') rest) := by
  have hslash (before after : List Char) : Text.splitBy (· == '/') (before ++ '/' :: after) =
      Text.splitBy (· == '/') before ++ Text.splitBy (· == '/') after :=
    Text.splitBy_append_cons (by decide) before after
  unfold Pointer.find?
  obtain rfl | rfl := hpart
  · have htext : reference.toList =
        '#' :: '/' :: ("components".toList ++ '/' :: ("schemas".toList ++ '/' :: rest)) := h
    rw [htext]
    change Pointer.walk? (Site.root tree) (Text.splitBy (· == '/') _) = _
    rw [hslash, hslash]
    rfl
  · have htext : reference.toList = '#' :: '/' :: ("definitions".toList ++ '/' :: rest) := h
    rw [htext]
    change Pointer.walk? (Site.root tree) (Text.splitBy (· == '/') _) = _
    rw [hslash]
    rfl

/-- A named schema stands under its name in the section of the named schemas, and a walk into the
section by a token for the name ends there. -/
theorem walk?_of_mem_schemas (hkeys : document.tree.hasDistinctKeys = true)
    (h : (raw, site) ∈ document.schemas) :
    site.address = (document.schemaSection.keys ++ [raw]).map Step.key ∧
    ∀ token, String.ofList (Pointer.unescape token) = raw →
      Pointer.walk? document.root (document.schemaSection.keys.map String.toList ++ [token]) =
        some site := by
  unfold schemaSection
  unfold schemas shared at h
  cases hcomponents : document.root.get? "components" with
  | some components =>
    rw [hcomponents] at h
    have hbelow := Json.hasDistinctKeys_get? hkeys (Site.node_of_get? hcomponents)
    obtain ⟨section_, hsection, hsite⟩ := Site.exists_get?_of_mem_membersAt hbelow h
    constructor
    · rw [Site.address_of_get? hsite, Site.address_of_get? hsection,
        Site.address_of_get? hcomponents]
      rfl
    · rintro token rfl
      refine (Pointer.walk?_cons_of_get? hcomponents _).trans ?_
      refine (Pointer.walk?_cons_of_get? hsection _).trans ?_
      exact Pointer.walk?_cons_of_get? hsite []
  | none =>
    rw [hcomponents] at h
    obtain ⟨section_, hsection, hsite⟩ := Site.exists_get?_of_mem_membersAt hkeys h
    constructor
    · rw [Site.address_of_get? hsite, Site.address_of_get? hsection]
      rfl
    · rintro token rfl
      refine (Pointer.walk?_cons_of_get? hsection _).trans ?_
      exact Pointer.walk?_cons_of_get? hsite []

/-- Keys that lead through a section to a name, and on: the section is the one, and there is one
token behind it. -/
theorem section_eq_of_keys {part : SchemaSection}
    (hpart : part = sharedSection ∨ part = topSection) {names : List String}
    (h : part.keys ++ names = document.schemaSection.keys ++ [raw]) :
    part = document.schemaSection ∧ names = [raw] := by
  obtain hsection | hsection := document.schemaSection_cases <;> rw [hsection] at h ⊢ <;>
    obtain rfl | rfl := hpart
  · exact ⟨rfl, List.append_cancel_left h⟩
  · exact absurd (List.cons.inj h).1 (by decide)
  · exact absurd (List.cons.inj h).1 (by decide)
  · exact ⟨rfl, List.append_cancel_left h⟩

/-- A text begins like references into one section only. -/
theorem section_eq_of_lead {part : SchemaSection}
    (hpart : part = sharedSection ∨ part = topSection) {rest token : List Char}
    (h : part.lead.toList ++ rest = document.schemaSection.lead.toList ++ token) :
    part = document.schemaSection := by
  -- The leads differ in their third character.
  have hthird := congrArg (·[2]?) h
  obtain hsection | hsection := document.schemaSection_cases <;> rw [hsection] at hthird ⊢ <;>
    obtain rfl | rfl := hpart
  · rfl
  · exact absurd hthird (by simp [topSection, sharedSection])
  · exact absurd hthird (by simp [topSection, sharedSection])
  · rfl

/-- A reference that names a schema leads to it when it is direct, and only then. -/
theorem find?_eq_some_iff_isDirect (hkeys : document.tree.hasDistinctKeys = true)
    (hnamed : Lowering.namedSchema? reference = some raw) (hmem : (raw, site) ∈ document.schemas) :
    Pointer.find? document.tree reference = some site ↔ document.IsDirect reference := by
  obtain ⟨haddress, hwalk⟩ := walk?_of_mem_schemas hkeys hmem
  obtain ⟨part, hpart, rest, htext, hraw⟩ := exists_section_of_namedSchema? hnamed
  rw [find?_eq_walk? document.tree hpart htext]
  constructor
  · intro hfind
    have htokens := Pointer.map_unescape_of_walk? hfind haddress
    rw [List.map_append, part.keys.map_map] at htokens
    have hkeysText : part.keys.map ((fun token => String.ofList (Pointer.unescape token)) ∘
        String.toList) = part.keys := by
      obtain rfl | rfl := hpart <;> decide
    rw [hkeysText] at htokens
    obtain ⟨rfl, hone⟩ := section_eq_of_keys hpart htokens
    refine ⟨rest, htext, fun hslash => ?_⟩
    obtain ⟨before, after, rfl⟩ := List.append_of_mem hslash
    have hlength := congrArg List.length hone
    rw [Text.splitBy_append_cons (by decide), List.length_map, List.length_append] at hlength
    have hbefore := List.length_pos_iff.2 (Text.splitBy_ne_nil (· == '/') before)
    have hafter := List.length_pos_iff.2 (Text.splitBy_ne_nil (· == '/') after)
    have htwo : (Text.splitBy (· == '/') before).length +
        (Text.splitBy (· == '/') after).length = 1 := hlength
    omega
  · rintro ⟨token, htoken, hslash⟩
    obtain rfl := section_eq_of_lead hpart (htext.symm.trans htoken)
    obtain rfl := List.append_cancel_left (htext.symm.trans htoken)
    have hpiece : Text.splitBy (· == '/') rest = [rest] :=
      Text.splitBy_eq_singleton fun c hc => beq_false_of_ne fun heq => hslash (heq ▸ hc)
    rw [hpiece]
    exact hwalk rest hraw

theorem isDirect_schemaReference (document : Document) (raw : String) :
    document.IsDirect (document.schemaReference raw) := by
  refine ⟨Pointer.escape raw.toList, ?_, Pointer.slash_notMem_escape _⟩
  simp [schemaReference]

theorem namedSchema?_schemaReference (document : Document) (raw : String) :
    Lowering.namedSchema? (document.schemaReference raw) = some raw := by
  have htext : (document.schemaReference raw).toList =
      document.schemaSection.lead.toList ++ Pointer.escape raw.toList := by
    simp [schemaReference]
  rw [namedSchema?_of_lead htext, Pointer.unescape_escape, String.ofList_toList]

end Document

/-! ## Names and nodes -/

namespace Lowering

variable {setting : Setting} {find : TypeFinder}

/-- What references mean by the names that the schemas were given. -/
structure FollowsNames (document : Document) (schemaNames : Entries String) : Prop where
  /-- Each schema has its own model. -/
  once : (schemaNames.map Prod.snd).Nodup
  /-- A reference that is taken for a model names the schema of the model, and it leads to the
  schema when it is direct, and only then. -/
  taken : ∀ reference model, schemaModel? schemaNames reference = some model →
    ∃ raw site, (raw, site) ∈ document.schemas ∧ schemaNames.get? raw = some model ∧
      (Pointer.find? document.tree reference = some site ↔ document.IsDirect reference)
  /-- The reference to a schema by its section and its name is taken for its model, and leads to
  it. -/
  canonical : ∀ raw site, (raw, site) ∈ document.schemas → ∃ model,
    schemaNames.get? raw = some model ∧
      schemaModel? schemaNames (document.schemaReference raw) = some model ∧
      Pointer.find? document.tree (document.schemaReference raw) = some site

/-- The names that every schema has. -/
theorem followsNames {document : Document} {schemaNames : Entries String}
    (hkeys : document.tree.hasDistinctKeys = true)
    (hnames : schemaNames.keys = document.schemas.map Prod.fst)
    (honce : (schemaNames.map Prod.snd).Nodup) : FollowsNames document schemaNames where
  once := honce
  taken := by
    intro reference model hmodel
    obtain ⟨raw, hnamed, hget⟩ := Option.bind_eq_some_iff.1 hmodel
    have hraw : raw ∈ document.schemas.map Prod.fst := by
      rw [← hnames, ← Entries.isSome_get?_iff, hget]
      rfl
    obtain ⟨⟨raw, site⟩, hmem, rfl⟩ := List.mem_map.1 hraw
    exact ⟨raw, site, hmem, hget, Document.find?_eq_some_iff_isDirect hkeys hnamed hmem⟩
  canonical := by
    intro raw site hmem
    have hraw : (schemaNames.get? raw).isSome = true := by
      rw [Entries.isSome_get?_iff, hnames]
      exact List.mem_map_of_mem hmem
    obtain ⟨model, hget⟩ := Option.isSome_iff_exists.1 hraw
    have hnamed := document.namedSchema?_schemaReference raw
    refine ⟨model, hget, Option.bind_eq_some_iff.2 ⟨raw, hnamed, hget⟩, ?_⟩
    exact (Document.find?_eq_some_iff_isDirect hkeys hnamed hmem).2
      (document.isDirect_schemaReference raw)

/-- The table begins with the models of the named schemas, each of which is what its own schema
gives under the name of the schema. -/
def HoldsSchemas (setting : Setting) (find : TypeFinder) (state : State) : Prop :=
  ∃ declared added, state.models.models = declared ++ added ∧
    List.Forall₂ (LoweredAt setting find state) setting.document.schemas declared

theorem HoldsSchemas.later {state after : State} {claimed : List Naming} {added : List Model}
    (h : HoldsSchemas setting find state) (hbooks : Books setting asked state after claimed added) :
    HoldsSchemas setting find after := by
  obtain ⟨declared, made, htable, hlowered⟩ := h
  refine ⟨declared, made ++ added, ?_, hlowered.imp fun _ _ hold => hold.later hbooks.earlier⟩
  rw [hbooks.table, htable, List.append_assoc]

/-- Lowering a named schema gives no schema another name. -/
theorem lowerModel_keepsNames (hfind : Accounts setting asked find) {raw : String} {schema : Site}
    (hschema : (raw, schema) ∈ setting.document.schemas) {state after : State}
    (hsound : Sound state)
    (hrun : (lowerModel setting find raw schema).run state = some (⟨⟩, after)) :
    after.schemaNames = state.schemaNames := by
  unfold lowerModel at hrun
  rw [StateT.run_bind, StateT.run_get, Option.pure_def, Option.bind_eq_bind,
    Option.bind_some] at hrun
  cases hname : state.schemaNames.get? raw with
  | none =>
    rw [hname] at hrun
    cases hrun
    rfl
  | some name =>
    simp only [hname] at hrun
    rw [StateT.run_bind] at hrun
    obtain ⟨⟨model, middle⟩, hmodel, hinsert⟩ := Option.bind_eq_some_iff.1 hrun
    have hbalanced :=
      (modelOf_owes hfind name raw (.inl ⟨raw, hschema⟩) (schemaLocation raw) state).result
        (Balanced.start hsound) hmodel
    cases hinsert
    exact hbalanced.earlier.schemaNames

/-- Nor does lowering all of them. -/
theorem lowerModels_keepsNames (hfind : Accounts setting asked find) (start : State)
    (names : Entries String) (done : List (String × Site)) {schemas : List (String × Site)}
    (hschemas : ∀ schema ∈ schemas, schema ∈ setting.document.schemas) {waiting : Entries String}
    (hwaiting : waiting.keys = schemas.map Prod.fst) :
    Contract True (fun state => Filling setting asked find start done waiting state ∧
        state.schemaNames = names)
      (schemas.forM fun (raw, schema) => lowerModel setting find raw schema)
      fun _ state => state.schemaNames = names := by
  induction schemas generalizing done waiting with
  | nil => exact Contract.pure fun _ h => h.2
  | cons schema schemas ih =>
    obtain ⟨raw, schema⟩ := schema
    obtain ⟨⟨key, name⟩, rest, rfl, hkey, hrest⟩ := List.map_eq_cons_iff.1 hwaiting
    obtain rfl : key = raw := hkey
    obtain ⟨hschema, hothers⟩ := List.forall_mem_cons.1 hschemas
    refine Contract.with_entry fun entry hentry => ?_
    obtain ⟨hfilling, rfl⟩ := hentry
    have hfirst := (lowerModel_fills hfind start done rest name hschema).traced hfilling
    refine hfirst.bind fun _ => Contract.mono_pre (ih (done ++ [(key, schema)]) hothers hrest) ?_
    rintro state ⟨hrun, hnext⟩
    obtain ⟨models, claimed, added, hfilled⟩ := hfilling
    exact ⟨hnext, lowerModel_keepsNames hfind hschema hfilled.sound hrun⟩

/-- In a document without repeated keys: when the named schemas are declared, references follow
the names of the schemas, and the names stay the same until the end, when each named schema has
its model. So a reference that is taken for a model leads to the schema that the model was made
from exactly when it is direct. -/
theorem declareModels_followsNames (hkeys : setting.document.tree.hasDistinctKeys = true) :
    ∃ declared, (declareModels setting).run .initial = some (⟨⟩, declared) ∧
      FollowsNames setting.document declared.schemaNames ∧
      ∀ lowered, (lowerModels setting (typeOf setting setting.depth)).run declared =
          some (⟨⟩, lowered) →
        lowered.schemaNames = declared.schemaNames ∧
        HoldsSchemas setting (typeOf setting setting.depth) lowered ∧
        ∀ operations final,
          (lowerOperations setting (typeOf setting setting.depth)).run.run lowered =
            some (.ok operations, final) →
          final.schemaNames = declared.schemaNames ∧
          HoldsSchemas setting (typeOf setting setting.depth) final := by
  have hschemas := Document.nodup_schemas hkeys
  have hfind := accounts_typeOf setting setting.depth
  have hplaces := @declareModels_places setting setting.document.schemas [] hschemas
  cases hdeclare : (declareModels setting).run .initial with
  | none => exact absurd hdeclare ((declareModels_following setting).no_result rfl)
  | some result =>
    obtain ⟨⟨⟩, declared⟩ := result
    obtain ⟨names, hnames, hplaced⟩ := hplaces.result (placed_initial setting) hdeclare
    replace hnames : names.keys = setting.document.schemas.map Prod.fst := hnames
    have hfilled : Filled setting (fun _ => True) (typeOf setting setting.depth) declared [] names
        [] _ [] declared := hplaced.filled (hnames ▸ hschemas)
    refine ⟨declared, rfl, followsNames hkeys ?_ hfilled.names, ?_⟩
    · rw [hplaced.schemaNames, hnames]
    · intro lowered hlower
      obtain ⟨models, claimed, added, hdone⟩ :=
        (lowerModels_fills hfind declared [] (fun _ hmem => hmem) hnames).result
          ⟨_, _, _, hfilled⟩ hlower
      have hsame : lowered.schemaNames = declared.schemaNames :=
        (lowerModels_keepsNames hfind declared _ [] (fun _ hmem => hmem) hnames).result
          ⟨⟨_, _, _, hfilled⟩, rfl⟩ hlower
      have hholds : HoldsSchemas setting (typeOf setting setting.depth) lowered :=
        ⟨models, added, by simpa using hdone.table, hdone.lowered⟩
      refine ⟨hsame, hholds, ?_⟩
      intro operations final hrun
      obtain ⟨hsound, claims, new, hbooks, -⟩ :=
        (lowerOperations_owes hfind lowered).result (.start hdone.sound) hrun operations rfl
      exact ⟨hbooks.earlier.schemaNames.trans hsame, hholds.later hbooks⟩

/-- Names with a slash and a tilde: the references to the schemas escape them. -/
theorem declareModels_followsNames_escaped :
    let tree : Json := .object [
      ("info", .object []),
      ("paths", .object []),
      ("components", .object [("schemas", .object [
        ("a/b", .object [("type", .string "string")]),
        ("~c", .object [("$ref", .string "#/components/schemas/a~1b")])])])]
    let setting : Setting := ⟨⟨tree, []⟩, Haskell.target⟩
    tree.hasDistinctKeys = true ∧
    (∃ declared, (declareModels setting).run .initial = some (⟨⟩, declared) ∧
      FollowsNames setting.document declared.schemaNames ∧
      ∀ lowered, (lowerModels setting (typeOf setting setting.depth)).run declared =
          some (⟨⟩, lowered) →
        lowered.schemaNames = declared.schemaNames ∧
        HoldsSchemas setting (typeOf setting setting.depth) lowered ∧
        ∀ operations final,
          (lowerOperations setting (typeOf setting setting.depth)).run.run lowered =
            some (.ok operations, final) →
          final.schemaNames = declared.schemaNames ∧
          HoldsSchemas setting (typeOf setting setting.depth) final) ∧
    ((run setting).bind fun result => result.outcome.toOption.map fun api =>
      api.models.models.map fun model => (model.name, model.rawName, model.shape)) = some [
        ("AB", "a/b", .alias (.primitive .string)), ("C", "~c", .alias (.named "AB"))] := by
  intro tree setting
  have hkeys : tree.hasDistinctKeys = true := by decide +kernel
  exact ⟨hkeys, declareModels_followsNames hkeys, by decide +kernel⟩

/-- The document of two names whose references are not direct: a slash that is left in the name,
and the lead of the section that is not there. -/
theorem taken_of_not_isDirect :
    let tree : Json := .object [
      ("info", .object []),
      ("paths", .object []),
      ("components", .object [("schemas", .object [
        ("a/b", .object [("type", .string "string")]),
        ("X", .object [("$ref", .string "#/components/schemas/a/b")]),
        ("Y", .object [("$ref", .string "#/definitions/X")])])])]
    let setting : Setting := ⟨⟨tree, []⟩, Haskell.target⟩
    ((declareModels setting).run .initial).map (fun result =>
        ["#/components/schemas/a/b", "#/definitions/X"].map fun reference =>
          (schemaModel? result.2.schemaNames reference,
            (Pointer.find? tree reference).map Site.address)) =
      some [(some "AB", none), (some "X", none)] ∧
    ((run setting).bind fun result => result.outcome.toOption.map fun api =>
      (api.models.models.map fun model => (model.name, model.shape), result.notices)) = some ([
        ("AB", .alias (.primitive .string)), ("X", .alias (.named "AB")),
        ("Y", .alias (.named "X"))], []) := by
  intro tree setting
  exact ⟨by decide +kernel, by decide +kernel⟩

end Lowering

end ServantGen
