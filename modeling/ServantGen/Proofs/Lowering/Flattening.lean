import Mathlib.Data.Set.Insert
import Mathlib.Logic.Relation
import ServantGen.Haskell.Lexical
import ServantGen.Proofs.Document.Overrides
import ServantGen.Proofs.Lowering.Appending
import ServantGen.Proofs.Lowering.InlineDepth

/-!
# Fields of schemas that are made of parts

The fields of a record are those of the schema and of all the schemas that it is made of, part by
part and to any depth. The nodes are visited depth first, a schema after its parts, and a node that
was visited is not entered again, so the visit comes to an end however the parts refer to each
other. Of several properties with one name the first on the way is the field, and a field is
required if any node on the way says so.
-/

namespace ServantGen.Lowering

variable {document : Document} {setting : Setting} {find : TypeFinder}

/-! ## First occurrences -/

namespace Gathered

variable {members : List (String × Site)}

theorem map_fst_addProperty (properties : List (String × Site)) (property : String × Site) :
    (addProperty properties property).map Prod.fst =
      if property.1 ∈ properties.map Prod.fst then properties.map Prod.fst
      else properties.map Prod.fst ++ [property.1] := by
  have hany : properties.any (·.1 == property.1) = true ↔ property.1 ∈ properties.map Prod.fst := by
    simp [List.any_eq_true]
  unfold addProperty
  by_cases hmem : property.1 ∈ properties.map Prod.fst
  · rw [if_pos (hany.2 hmem), if_pos hmem]
  · rw [if_neg (mt hany.1 hmem), if_neg hmem, List.map_append, List.map_singleton]

/-- Each name is kept where it occurs first. -/
theorem map_fst_foldl_addProperty (members : List (String × Site)) :
    (members.foldl addProperty []).map Prod.fst = (members.map Prod.fst).eraseDups := by
  induction members using List.reverseRecOn with
  | nil => rfl
  | append_singleton members member ih =>
    rw [List.foldl_append, List.foldl_cons, List.foldl_nil, map_fst_addProperty, ih,
      List.map_append, List.map_singleton, eraseDups_append_singleton]
    simp only [List.mem_eraseDups]

/-- A property is kept as it occurs first. -/
theorem find?_eq_some_of_mem_foldl {property : String × Site}
    (h : property ∈ members.foldl addProperty []) :
    members.find? (·.1 == property.1) = some property := by
  induction members using List.reverseRecOn with
  | nil => simp at h
  | append_singleton members member ih =>
    rw [List.foldl_append, List.foldl_cons, List.foldl_nil] at h
    rw [List.find?_append]
    have hnames := map_fst_foldl_addProperty members
    generalize members.foldl addProperty [] = kept at h ih hnames
    unfold addProperty at h
    split at h
    · rw [ih h, Option.some_or]
    · rename_i hnew
      obtain h | h := List.mem_append.1 h
      · rw [ih h, Option.some_or]
      · obtain rfl := List.mem_singleton.1 h
        -- No member before has the name, since it would have been kept.
        have hnone : members.find? (·.1 == property.1) = none := by
          rw [List.find?_eq_none]
          intro other hother heq
          have hold : property.1 ∈ kept.map Prod.fst := by
            rw [hnames, List.mem_eraseDups]
            exact List.mem_map.2 ⟨other, hother, by simpa using heq⟩
          exact hnew (by simpa [List.any_eq_true] using hold)
        simp [hnone]

end Gathered

/-! ## Visiting -/

def places (order : List Site) : Set Address :=
  { address | address ∈ order.map Site.address }

/-- Sites are visited one after the other, where the nodes at some addresses were seen before. A
site that leads nowhere or to a node that was seen is passed over; a new node is visited after its
parts. -/
inductive Visits (document : Document) : Set Address → List Site → List Site → Prop
  | done {seen : Set Address} : Visits document seen [] []
  | unresolved {seen : Set Address} {site : Site} {rest order : List Site} {error : ReadError}
      (hresolve : document.resolve site = .error error) (hrest : Visits document seen rest order) :
      Visits document seen (site :: rest) order
  | again {seen : Set Address} {site node : Site} {rest order : List Site}
      (hresolve : document.resolve site = .ok node) (hseen : node.address ∈ seen)
      (hrest : Visits document seen rest order) : Visits document seen (site :: rest) order
  | visit {seen : Set Address} {site node : Site} {rest inner order : List Site}
      (hresolve : document.resolve site = .ok node) (hnew : node.address ∉ seen)
      (hparts : Visits document (insert node.address seen) (node.itemsAt "allOf") inner)
      (hrest : Visits document (seen ∪ places (inner ++ [node])) rest order) :
      Visits document seen (site :: rest) (inner ++ node :: order)

def IsPart (document : Document) (node part : Site) : Prop :=
  ∃ site ∈ node.itemsAt "allOf", document.resolve site = .ok part

section Places

variable {node : Site} {order others : List Site}

@[simp] theorem places_nil : places [] = ∅ := by
  simp [places]

@[simp] theorem places_append : places (order ++ others) = places order ∪ places others := by
  ext address
  simp [places]

@[simp] theorem places_singleton : places [node] = {node.address} := by
  ext address
  simp [places]

end Places

namespace Visits

variable {seen : Set Address} {site : Site} {sites inner order other : List Site}

/-- There is one order of visiting. -/
theorem unique (h : Visits document seen sites order) (h' : Visits document seen sites other) :
    other = order := by
  induction h generalizing other with
  | done => cases h' with | done => rfl
  | unresolved hresolve hrest ih =>
    cases h' with
    | unresolved hresolve' hrest' => exact ih hrest'
    | again hresolve' hseen' hrest' => exact ih hrest'
    | visit hresolve' hnew' hparts' hrest' => simp [hresolve] at hresolve'
  | again hresolve hseen hrest ih =>
    cases h' with
    | unresolved hresolve' hrest' => exact ih hrest'
    | again hresolve' hseen' hrest' => exact ih hrest'
    | visit hresolve' hnew' hparts' hrest' =>
      obtain rfl := Except.ok.inj (hresolve.symm.trans hresolve')
      exact absurd hseen hnew'
  | visit hresolve hnew hparts hrest ihparts ihrest =>
    cases h' with
    | unresolved hresolve' hrest' => simp [hresolve] at hresolve'
    | again hresolve' hseen' hrest' =>
      obtain rfl := Except.ok.inj (hresolve.symm.trans hresolve')
      exact absurd hseen' hnew
    | visit hresolve' hnew' hparts' hrest' =>
      obtain rfl := Except.ok.inj (hresolve.symm.trans hresolve')
      obtain rfl := ihparts hparts'
      rw [ihrest hrest']

/-- Sites can be visited after the first of them. -/
theorem cons (first : Visits document seen [site] inner)
    (rest : Visits document (seen ∪ places inner) sites order) :
    Visits document seen (site :: sites) (inner ++ order) := by
  cases first with
  | unresolved hresolve hdone =>
    cases hdone
    exact unresolved hresolve (by simpa using rest)
  | again hresolve hseen hdone =>
    cases hdone
    exact again hresolve hseen (by simpa using rest)
  | visit hresolve hnew hparts hdone =>
    cases hdone
    rw [List.append_assoc]
    exact visit hresolve hnew hparts rest

/-- A node is visited once, and not if it was seen before. -/
theorem nodup_places (h : Visits document seen sites order) :
    (order.map Site.address).Nodup ∧ ∀ address ∈ places order, address ∉ seen := by
  induction h with
  | done => simp
  | unresolved hresolve hrest ih => exact ih
  | again hresolve hseen hrest ih => exact ih
  | @visit seen site node rest inner order hresolve hnew hparts hrest ihparts ihrest =>
    obtain ⟨hinner, hinnerSeen⟩ := ihparts
    obtain ⟨horder, horderSeen⟩ := ihrest
    -- The node counts as seen while its parts are visited, and all of them afterwards.
    have hinside : node.address ∉ places inner := fun hmem => hinnerSeen _ hmem (.inl rfl)
    have hbehind : ∀ address ∈ places order, address ∉ places (inner ++ [node]) :=
      fun address haddress hmem => horderSeen address haddress (.inr hmem)
    rw [places_append, places_singleton] at hbehind
    constructor
    · rw [List.map_append, List.map_cons, List.nodup_append]
      refine ⟨hinner, List.nodup_cons.2 ⟨fun hmem => hbehind _ hmem (.inr rfl), horder⟩, ?_⟩
      rintro address haddress other hother rfl
      obtain rfl | hother := List.mem_cons.1 hother
      · exact hinside haddress
      · exact hbehind address hother (.inl haddress)
    · rw [← List.singleton_append, places_append, places_append, places_singleton]
      rintro address (haddress | rfl | haddress) hseen
      · exact hinnerSeen address haddress (.inr hseen)
      · exact hnew hseen
      · exact horderSeen address haddress (.inl hseen)

/-- Whatever a site leads to is visited, if it was not seen before. -/
theorem mem_places_of_resolve (h : Visits document seen sites order) {site node : Site}
    (hsite : site ∈ sites) (hresolve : document.resolve site = .ok node) :
    node.address ∈ seen ∪ places order := by
  induction h with
  | done => simp at hsite
  | unresolved hfails hrest ih =>
    obtain rfl | hsite := List.mem_cons.1 hsite
    · simp [hfails] at hresolve
    · exact ih hsite
  | again hagain hseen hrest ih =>
    obtain rfl | hsite := List.mem_cons.1 hsite
    · obtain rfl := Except.ok.inj (hagain.symm.trans hresolve)
      exact .inl hseen
    · exact ih hsite
  | visit hvisit hnew hparts hrest ihparts ihrest =>
    rw [← List.singleton_append, ← List.append_assoc, places_append, ← Set.union_assoc]
    obtain rfl | hsite := List.mem_cons.1 hsite
    · obtain rfl := Except.ok.inj (hvisit.symm.trans hresolve)
      exact .inl (.inr (by simp))
    · exact ihrest hsite

/-- The parts of a node that is visited are visited, if they were not seen before. -/
theorem parts_mem_places (h : Visits document seen sites order) {node part : Site}
    (hnode : node ∈ order) (hpart : IsPart document node part) :
    part.address ∈ seen ∪ places order := by
  induction h with
  | done => simp at hnode
  | unresolved hresolve hrest ih => exact ih hnode
  | again hresolve hseen hrest ih => exact ih hnode
  | @visit seen site first rest inner order hresolve hnew hparts hrest ihparts ihrest =>
    have hinside : ∀ {address}, address ∈ insert first.address seen ∪ places inner →
        address ∈ seen ∪ places (inner ++ first :: order) := by
      rw [← List.singleton_append, places_append, places_append, places_singleton]
      rintro address ((rfl | hseen) | hinner)
      · exact .inr (.inr (.inl rfl))
      · exact .inl hseen
      · exact .inr (.inl hinner)
    obtain hnode | hnode := List.mem_append.1 hnode
    · exact hinside (ihparts hnode)
    · obtain rfl | hnode := List.mem_cons.1 hnode
      · obtain ⟨below, hbelow, hpart⟩ := hpart
        exact hinside (hparts.mem_places_of_resolve hbelow hpart)
      · rw [← List.singleton_append, ← List.append_assoc, places_append, ← Set.union_assoc]
        exact ihrest hnode

/-- A node that is visited is a part of parts of what a site leads to. -/
theorem exists_reaches (h : Visits document seen sites order) {node : Site} (hnode : node ∈ order) :
    ∃ site ∈ sites, ∃ first, document.resolve site = .ok first ∧
      Relation.ReflTransGen (IsPart document) first node := by
  induction h with
  | done => simp at hnode
  | unresolved hresolve hrest ih | again hresolve hseen hrest ih =>
    obtain ⟨site, hsite, hreaches⟩ := ih hnode
    exact ⟨site, List.mem_cons_of_mem _ hsite, hreaches⟩
  | @visit seen site top rest inner order hresolve hnew hparts hrest ihparts ihrest =>
    obtain hnode | hnode := List.mem_append.1 hnode
    · obtain ⟨below, hbelow, part, hpart, hreaches⟩ := ihparts hnode
      exact ⟨site, List.mem_cons_self, top, hresolve, .head ⟨below, hbelow, hpart⟩ hreaches⟩
    · obtain rfl | hnode := List.mem_cons.1 hnode
      · exact ⟨site, List.mem_cons_self, node, hresolve, .refl⟩
      · obtain ⟨other, hother, hreaches⟩ := ihrest hnode
        exact ⟨other, List.mem_cons_of_mem _ hother, hreaches⟩

end Visits

/-! ## What is gathered on the way -/

def requiredNames (node : Site) : List String :=
  (node.itemsAt "required").filterMap fun name => name.node.string?

def declared (order : List Site) : List (String × Site) :=
  order.flatMap fun node => node.membersAt "properties"

/-- Visiting sites turns what was gathered into more: the nodes on the way add their properties
and their required names. -/
structure Collects (document : Document) (sites : List Site) (before after : Gathered)
    (order : List Site) : Prop where
  visits : Visits document { address | address ∈ before.visited } sites order
  properties : after.properties = (declared order).foldl Gathered.addProperty before.properties
  required : after.required = before.required ++ order.flatMap requiredNames
  visited : after.visited.Perm (order.map Site.address ++ before.visited)

namespace Collects

variable {site : Site} {sites inner order : List Site} {before middle after : Gathered}

theorem nil (gathered : Gathered) : Collects document [] gathered gathered [] where
  visits := .done
  properties := rfl
  required := (List.append_nil _).symm
  visited := .rfl

/-- The nodes that count as visited are those of before and those on the way. -/
theorem setOf_visited (h : Collects document sites before after order) :
    { address | address ∈ after.visited } =
      { address | address ∈ before.visited } ∪ places order := by
  ext address
  simp [h.visited.mem_iff, places, or_comm]

theorem cons (first : Collects document [site] before middle inner)
    (rest : Collects document sites middle after order) :
    Collects document (site :: sites) before after (inner ++ order) where
  visits := first.visits.cons (first.setOf_visited ▸ rest.visits)
  properties := by
    rw [declared, List.flatMap_append, List.foldl_append, ← declared, ← declared,
      ← first.properties, rest.properties]
  required := by rw [List.flatMap_append, ← List.append_assoc, ← first.required, rest.required]
  visited := by
    have hvisited := rest.visited.trans (first.visited.append_left _)
    rw [← List.append_assoc] at hvisited
    rw [List.map_append]
    exact hvisited.trans (List.perm_append_comm.append_right _)

/-- A site that leads nowhere adds nothing. -/
theorem of_error {error : ReadError} (h : document.resolve site = .error error)
    (gathered : Gathered) : Collects document [site] gathered gathered [] :=
  { @nil document gathered with visits := .unresolved h .done }

/-- A node that was visited adds nothing. -/
theorem of_mem {node : Site} {gathered : Gathered} (h : document.resolve site = .ok node)
    (hold : node.address ∈ gathered.visited) : Collects document [site] gathered gathered [] :=
  { @nil document gathered with visits := .again h hold .done }

/-- A new node adds its own after its parts. -/
theorem of_parts {node : Site} (h : document.resolve site = .ok node)
    (hnew : node.address ∉ before.visited)
    (hparts : Collects document (node.itemsAt "allOf")
      { before with visited := node.address :: before.visited } after inner) :
    Collects document [site] before (after.addOwn node) (inner ++ [node]) where
  visits := by
    refine .visit h hnew ?_ .done
    have hseen : { address | address ∈ node.address :: before.visited } =
        insert node.address { address | address ∈ before.visited } := by
      ext address
      simp
    exact hseen ▸ hparts.visits
  properties := by
    rw [declared, List.flatMap_append, List.foldl_append, ← declared, ← hparts.properties,
      List.flatMap_singleton]
    rfl
  required := by
    rw [List.flatMap_append, ← List.append_assoc, List.flatMap_singleton, ← hparts.required]
    rfl
  visited := by
    rw [List.map_append, List.append_assoc]
    exact hparts.visited

/-- What was visited stays visited. -/
theorem visited_subset (h : Collects document sites before after order) :
    before.visited ⊆ after.visited :=
  fun _ haddress => h.visited.mem_iff.2 (List.mem_append_right _ haddress)

/-- Parts are visited one after the other, if each is once the nodes at the start are visited. -/
theorem foldl {start : Gathered} {parts : List Site} {step : Gathered → Site → Gathered}
    (hstep : ∀ part ∈ parts, ∀ more : Gathered, start.visited ⊆ more.visited →
      ∃ order, Collects document [part] more (step more part) order)
    {gathered : Gathered} (h : start.visited ⊆ gathered.visited) :
    ∃ order, Collects document parts gathered (parts.foldl step gathered) order := by
  induction parts generalizing gathered with
  | nil => exact ⟨[], nil gathered⟩
  | cons part parts ih =>
    obtain ⟨hpart, hparts⟩ := List.forall_mem_cons.1 hstep
    obtain ⟨inner, hinner⟩ := hpart gathered h
    obtain ⟨order, horder⟩ := ih hparts (List.Subset.trans h hinner.visited_subset)
    exact ⟨inner ++ order, hinner.cons horder⟩

/-- With depth enough for the nodes that were not visited, all that can be visited is. -/
theorem gather {depth : Nat} {gathered : Gathered} (hsite : site ∈ document.tree.sites)
    (h : (Gathered.unvisited document gathered.visited).length < depth) :
    ∃ order, Collects document [site] gathered (Gathered.gather document depth site gathered)
      order := by
  induction depth generalizing site gathered with
  | zero => omega
  | succ depth ih =>
    unfold Gathered.gather
    cases hresolve : document.resolve site with
    | error error => exact ⟨[], of_error hresolve gathered⟩
    | ok node =>
      have hnode := Document.mem_of_resolve hsite hresolve
      dsimp only
      split
      · rename_i hold
        exact ⟨[], of_mem hresolve hold⟩
      · rename_i hnew
        let start : Gathered := { gathered with visited := node.address :: gathered.visited }
        have hfewer : (Gathered.unvisited document start.visited).length <
            (Gathered.unvisited document gathered.visited).length :=
          Gathered.length_unvisited_cons_lt hnode hnew
        -- No part takes back a visit, so for each fewer nodes are left than there were.
        have hpart : ∀ part ∈ node.itemsAt "allOf", ∀ more : Gathered,
            start.visited ⊆ more.visited → ∃ order, Collects document [part] more
              (Gathered.gather document depth part more) order := by
          intro part hpart more hmore
          have hless := @Gathered.length_unvisited_le document _ _ hmore
          exact ih (Site.mem_of_itemsAt hnode hpart) (by omega)
        obtain ⟨inner, hinner⟩ := foldl hpart (List.Subset.refl start.visited)
        exact ⟨inner ++ [node], of_parts hresolve hnew hinner⟩

end Collects

/-! ## Records -/

/-- The type of a field is found for a property, and may be absent if it is not required. -/
def HasTypeOf (find : TypeFinder) (model location : String) (property : Site) (field : Field) :
    Prop :=
  ∃ before after type,
    (find property (model ++ " " ++ field.rawName)
      (location ++ ".properties." ++ field.rawName)).run before = some (type, after) ∧
    field.type = if field.required then type else type.orNone

/-- A field that is made from a property. -/
structure MadeFrom (find : TypeFinder) (model location : String) (required : List String)
    (property : String × Site) (field : Field) : Prop where
  rawName : field.rawName = property.1
  required : field.required = required.contains property.1
  description : field.description = description? property.2
  type : HasTypeOf find model location property.2 field

theorem fieldsOf_madeFrom (model location : String) (required : List String) (scope : NameScope)
    (properties : List (String × Site)) :
    Returns (fieldsOf setting find model location required scope properties)
      (List.Forall₂ (MadeFrom find model location required) properties) := by
  induction properties generalizing scope with
  | nil => exact Returns.pure .nil
  | cons property rest ih =>
    obtain ⟨raw, property⟩ := property
    unfold fieldsOf
    refine (Returns.any _).bind fun name _ => ?_
    refine (Returns.traced _).bind fun type htype => ?_
    refine (ih _).bind fun fields hfields => Returns.pure (.cons ?_ hfields)
    obtain ⟨before, after, hrun⟩ := htype
    exact ⟨rfl, rfl, rfl, before, after, type, hrun, rfl⟩

theorem membersAt_eq_nil_of_hasProperties {schema : Site}
    (h : hasProperties schema.node = false) : schema.membersAt "properties" = [] := by
  unfold hasProperties at h
  cases hvalue : schema.node.get? "properties" with
  | none => simp [Site.membersAt, Site.get?, Site.step?, Json.step?, hvalue]
  | some value =>
    cases value with
    | object fields =>
      obtain rfl : fields = [] := by simpa [hvalue, Json.object?] using h
      simp [Site.membersAt, Site.get?, Site.step?, Json.step?, hvalue, Site.members?, Json.object?]
    | _ =>
      simp [Site.membersAt, Site.get?, Site.step?, Json.step?, hvalue, Site.members?, Json.object?]

/-- The fields of a record are made from the properties of its schema. -/
theorem modelOf_madeFrom (name raw : String) (schema : Site) (location : String) :
    Returns (modelOf setting find name raw schema location) fun model =>
      ∀ fields, model.shape = .record fields →
        List.Forall₂
          (MadeFrom find name location (properties setting.document schema).required)
          (properties setting.document schema).properties fields := by
  have hshape : Returns (shapeOf setting find name schema location) fun result =>
      ∀ fields, result.1 = .record fields →
        List.Forall₂
          (MadeFrom find name location (properties setting.document schema).required)
          (properties setting.document schema).properties fields := by
    rw [shapeOf_eq]
    cases shapeKind schema with
    | reference reference => exact (Returns.any _).bind fun type _ => Returns.pure (by simp)
    | enum values => exact Returns.pure (by simp)
    | record =>
      refine (fieldsOf_madeFrom name location _ .empty _).bind fun fields hfields => ?_
      refine Returns.pure ?_
      rintro _ ⟨⟩
      exact hfields
    | union alternatives =>
      refine (Returns.any _).bind fun variants _ => ?_
      exact Returns.get_bind fun state => Returns.pure (by simp)
    | empty hreference _ hobject =>
      obtain ⟨hparts, hown⟩ : schema.has "allOf" = false ∧ hasProperties schema.node = false := by
        simpa using hobject
      have hnone : (properties setting.document schema).properties = [] := by
        refine List.eq_nil_iff_forall_not_mem.2 fun property hproperty => ?_
        have hmember := mem_membersAt_of_mem_properties hreference hparts hproperty
        rw [membersAt_eq_nil_of_hasProperties hown] at hmember
        exact List.not_mem_nil hmember
      rw [hnone]
      refine Returns.pure ?_
      rintro _ ⟨⟩
      exact .nil
    | type => exact (Returns.any _).bind fun type _ => Returns.pure (by simp)
  exact hshape.bind fun result hresult => Returns.pure hresult

/-- The nodes that a schema is made of are visited one after the other. -/
structure Unfolds (document : Document) (schema : Site) (order : List Site) : Prop where
  visits : Visits document ∅ [schema] order
  /-- No node is visited twice. -/
  once : (order.map Site.address).Nodup
  /-- What is visited is the schema or a part of it, or a part of a part, and so on. -/
  reached : ∀ node ∈ order, ∃ root, document.resolve schema = .ok root ∧
    Relation.ReflTransGen (IsPart document) root node
  /-- The schema is visited. -/
  root : ∀ root, document.resolve schema = .ok root → root.address ∈ order.map Site.address
  /-- The parts of what is visited are visited. -/
  parts : ∀ node ∈ order, ∀ part, IsPart document node part →
    part.address ∈ order.map Site.address

/-- What is gathered from a schema, by the nodes that it is made of. -/
structure GatheredFrom (order : List Site) (gathered : Gathered) : Prop where
  /-- There is a property for each name, in the order in which the names occur first. -/
  names : gathered.properties.map Prod.fst = ((declared order).map Prod.fst).eraseDups
  /-- A property is the first with its name. -/
  first : ∀ property ∈ gathered.properties,
    (declared order).find? (·.1 == property.1) = some property
  required : gathered.required = order.flatMap requiredNames
  /-- The nodes are visited, each once, and no other. -/
  visited : gathered.visited.Perm (order.map Site.address)

theorem Collects.gatheredFrom {sites order : List Site} {gathered : Gathered}
    (h : Collects document sites .empty gathered order) : GatheredFrom order gathered where
  names := by
    rw [h.properties, ← Gathered.map_fst_foldl_addProperty]
    rfl
  first property hproperty := by
    rw [h.properties] at hproperty
    exact Gathered.find?_eq_some_of_mem_foldl hproperty
  required := h.required
  visited := by simpa [Gathered.empty] using h.visited

/-- The fields of a record, by the nodes that its schema is made of. -/
structure FieldsOfNodes (find : TypeFinder) (model location : String) (order : List Site)
    (fields : List Field) : Prop where
  /-- There is a field for each name, in the order in which the names occur first. -/
  rawNames : fields.map Field.rawName = ((declared order).map Prod.fst).eraseDups
  once : (fields.map Field.rawName).Nodup
  /-- A field is required when one of the nodes lists its name. -/
  required : ∀ field ∈ fields,
    (field.required = true ↔ ∃ node ∈ order, field.rawName ∈ requiredNames node)
  /-- A field describes the first property with its name, and has the type found for it. -/
  first : ∀ field ∈ fields, ∃ property,
    (declared order).find? (·.1 == field.rawName) = some (field.rawName, property) ∧
    field.description = description? property ∧ HasTypeOf find model location property field

theorem FieldsOfNodes.of_madeFrom {model location : String} {order : List Site}
    {gathered : Gathered} {fields : List Field} (hgathered : GatheredFrom order gathered)
    (h : List.Forall₂ (MadeFrom find model location gathered.required) gathered.properties
      fields) :
    FieldsOfNodes find model location order fields := by
  have hnames : fields.map Field.rawName = ((declared order).map Prod.fst).eraseDups := by
    rw [← hgathered.names, ← List.forall₂_eq_eq_eq, List.forall₂_map_left_iff,
      List.forall₂_map_right_iff]
    exact h.flip.imp fun _ _ hmade => hmade.rawName
  refine ⟨hnames, hnames ▸ nodup_eraseDups _, fun field hfield => ?_, fun field hfield => ?_⟩
  · obtain ⟨property, -, hmade⟩ := Outcomes.exists_of_mem_of_forall₂ h hfield
    rw [hmade.required, hmade.rawName, hgathered.required, List.contains_iff_mem,
      List.mem_flatMap]
  · obtain ⟨⟨raw, property⟩, hproperty, hmade⟩ := Outcomes.exists_of_mem_of_forall₂ h hfield
    obtain rfl : field.rawName = raw := hmade.rawName
    exact ⟨property, hgathered.first _ hproperty, hmade.description, hmade.type⟩

/-- However the parts of a schema refer to each other, there is one order in which the nodes are
visited, each once; any depth beyond the size of the document visits them all, and gathers what they
say; and whenever the schema becomes a record, its fields are those of the nodes in this order. -/
theorem modelOf_flattens {document : Document} {schema : Site}
    (hschema : schema ∈ document.tree.sites) :
    ∃ order, Unfolds document schema order ∧
      (∀ other, Visits document ∅ [schema] other → other = order) ∧
      (∀ depth, document.tree.nodeCount < depth →
        Gathered.gather document depth schema .empty = properties document schema) ∧
      GatheredFrom order (properties document schema) ∧
      ∀ (target : Target) (find : TypeFinder) (name raw location : String) (state after : State)
        (model : Model) (fields : List Field),
        (modelOf ⟨document, target⟩ find name raw schema location).run state =
          some (model, after) →
        model.shape = .record fields →
        FieldsOfNodes find name location order fields := by
  have hall : (Gathered.unvisited document Gathered.empty.visited).length ≤
      document.tree.nodeCount := by
    rw [← Json.length_sites]
    exact List.length_filter_le _ _
  obtain ⟨order, horder⟩ := Collects.gather hschema (Nat.lt_succ_of_le hall)
  have hvisits : Visits document ∅ [schema] order := by simpa [Gathered.empty] using horder.visits
  have hgathered : GatheredFrom order (properties document schema) := horder.gatheredFrom
  have hseen : ∀ {address}, address ∈ ∅ ∪ places order → address ∈ order.map Site.address := by
    simp [places]
  refine ⟨order, ⟨hvisits, hvisits.nodup_places.1, fun node hnode => ?_, fun root hroot => ?_,
    fun node hnode part hpart => ?_⟩, fun other hother => hvisits.unique hother,
    fun depth hdepth => ?_, hgathered, ?_⟩
  · obtain ⟨site, hsite, root, hroot, hreaches⟩ := hvisits.exists_reaches hnode
    obtain rfl := List.mem_singleton.1 hsite
    exact ⟨root, hroot, hreaches⟩
  · exact hseen (hvisits.mem_places_of_resolve List.mem_cons_self hroot)
  · exact hseen (hvisits.parts_mem_places hnode hpart)
  · exact Gathered.gather_eq_of_lt hschema (by omega) (by omega)
  · intro target find name raw location state after model fields hrun hshape
    have hfields := (modelOf_madeFrom name raw schema location).of_run hrun fields hshape
    exact .of_madeFrom hgathered hfields

/-- Two parts share a base, one of them leads back to the schema, and one part leads nowhere. -/
theorem modelOf_flattens_shared :
    let reference (name : String) : Json := .object [("$ref", .string ("#/definitions/" ++ name))]
    let property (type owner : String) : Json :=
      .object [("type", .string type), ("description", .string owner)]
    let cat : Json := .object [
      ("allOf", .array [reference "Left", reference "Right", reference "Cat"]),
      ("properties", .object [
        ("tag", property "integer" "Cat"), ("age", property "integer" "Cat")]),
      ("required", .array [.string "age"])]
    let tree : Json := .object [("info", .object []), ("paths", .object []),
      ("definitions", .object [
        ("Base", .object [("properties", .object [("id", property "string" "Base")]),
          ("required", .array [.string "name"])]),
        ("Left", .object [("allOf", .array [reference "Base", reference "Cat"]),
          ("properties", .object [
            ("name", property "boolean" "Left"), ("id", property "integer" "Left")])]),
        ("Right", .object [("allOf", .array [reference "Base", reference "Nowhere"]),
          ("properties", .object [
            ("name", property "string" "Right"), ("tag", property "string" "Right")])]),
        ("Cat", cat)])]
    let document : Document := ⟨tree, []⟩
    let schema : Site := ⟨[.key "definitions", .key "Cat"], cat⟩
    let find := typeOf ⟨document, Haskell.target⟩ 1
    let fields : List Field := [
      ⟨"id", "id", .optional (.primitive .string), false, some "Base"⟩,
      ⟨"name", "name", .primitive .bool, true, some "Left"⟩,
      ⟨"tag", "tag", .optional (.primitive .string), false, some "Right"⟩,
      ⟨"age", "age", .primitive .int32, true, some "Cat"⟩]
    Document.ofTree tree = .ok document ∧ schema ∈ tree.sites ∧
    ∃ model after order,
      (modelOf ⟨document, Haskell.target⟩ find "Cat" "Cat" schema "components.schemas.Cat").run
        .initial = some (model, after) ∧
      model.shape = .record fields ∧ Unfolds document schema order ∧
      GatheredFrom order (properties document schema) ∧
      FieldsOfNodes find "Cat" "components.schemas.Cat" order fields := by
  intro reference property cat tree document schema find fields
  have hpath : ((Site.root tree).get? "definitions").bind (·.get? "Cat") = some schema := rfl
  obtain ⟨definitions, hdefinitions, hcat⟩ := Option.bind_eq_some_iff.1 hpath
  have hschema : schema ∈ tree.sites :=
    Site.mem_of_get? (Site.mem_of_get? (Json.root_mem_sites tree) hdefinitions) hcat
  have hview : ((modelOf ⟨document, Haskell.target⟩ find "Cat" "Cat" schema
      "components.schemas.Cat").run .initial).map (fun result => result.1.shape) =
        some (.record fields) := by
    decide +kernel
  obtain ⟨⟨model, after⟩, hrun, hshape⟩ := Option.map_eq_some_iff.1 hview
  obtain ⟨order, hunfolds, -, -, hgathered, hfields⟩ := @modelOf_flattens document schema hschema
  exact ⟨rfl, hschema, model, after, order, hrun, hshape, hunfolds, hgathered,
    hfields Haskell.target find "Cat" "Cat" "components.schemas.Cat" .initial after model fields
      hrun hshape⟩

end ServantGen.Lowering
