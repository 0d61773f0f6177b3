import ServantGen.Document.Reading
import ServantGen.Proofs.Outcomes

/-!
# The sites of a tree

A tree has one site for each of its nodes, and whatever is reached from a site of the tree, by a
key, by a position or by a reference, is a site of the tree again. So everything that reading a
document answers comes from a list as long as the document is large.
-/

namespace ServantGen

namespace Json

mutual

/-- The sites of a tree that stands at an address. -/
def sitesFrom (address : Address) : Json → List Site
  | .array items => ⟨address, .array items⟩ :: itemSites address 0 items
  | .object fields => ⟨address, .object fields⟩ :: fieldSites address fields
  | json => [⟨address, json⟩]

/-- The sites of the items of an array, counted from `position`. -/
def itemSites (address : Address) (position : Nat) : List Json → List Site
  | [] => []
  | item :: items =>
    sitesFrom (address ++ [.index position]) item ++ itemSites address (position + 1) items

def fieldSites (address : Address) : List (String × Json) → List Site
  | [] => []
  | (key, value) :: fields =>
    sitesFrom (address ++ [.key key]) value ++ fieldSites address fields

end

def sites (tree : Json) : List Site :=
  tree.sitesFrom []

mutual

theorem length_sitesFrom (address : Address) :
    ∀ json : Json, (json.sitesFrom address).length = json.nodeCount
  | .array items => by simp [sitesFrom, nodeCount, length_itemSites address 0 items]
  | .object fields => by simp [sitesFrom, nodeCount, length_fieldSites address fields]
  | .null | .bool _ | .number _ | .string _ => by simp [sitesFrom, nodeCount]

theorem length_itemSites (address : Address) (position : Nat) :
    ∀ items : List Json, (itemSites address position items).length = itemsCount items
  | [] => rfl
  | item :: items => by
    simp [itemSites, itemsCount, length_sitesFrom _ item, length_itemSites address _ items]

theorem length_fieldSites (address : Address) :
    ∀ fields : List (String × Json), (fieldSites address fields).length = fieldsCount fields
  | [] => rfl
  | (key, value) :: fields => by
    simp [fieldSites, fieldsCount, length_sitesFrom _ value, length_fieldSites address fields]

end

theorem length_sites (tree : Json) : tree.sites.length = tree.nodeCount :=
  length_sitesFrom [] tree

theorem self_mem_sitesFrom (address : Address) (json : Json) :
    ⟨address, json⟩ ∈ json.sitesFrom address := by
  cases json <;> simp [sitesFrom]

theorem root_mem_sites (tree : Json) : Site.root tree ∈ tree.sites :=
  self_mem_sitesFrom [] tree

theorem sitesFrom_subset_itemSites (address : Address) {items : List Json} {position index : Nat}
    {item : Json} (h : (item, index) ∈ items.zipIdx position) :
    item.sitesFrom (address ++ [.index index]) ⊆ itemSites address position items := by
  induction items generalizing position with
  | nil => simp at h
  | cons first items ih =>
    rw [List.zipIdx_cons, List.mem_cons] at h
    rw [itemSites]
    obtain heq | h := h
    · obtain ⟨rfl, rfl⟩ := Prod.mk.inj heq
      exact List.subset_append_left _ _
    · exact List.Subset.trans (ih h) (List.subset_append_right _ _)

theorem sitesFrom_subset_fieldSites (address : Address) {fields : List (String × Json)}
    {key : String} {value : Json} (h : (key, value) ∈ fields) :
    value.sitesFrom (address ++ [.key key]) ⊆ fieldSites address fields := by
  induction fields with
  | nil => simp at h
  | cons first fields ih =>
    rw [fieldSites]
    obtain rfl | h := List.mem_cons.1 h
    · exact List.subset_append_left _ _
    · exact List.Subset.trans (ih h) (List.subset_append_right _ _)

mutual

/-- The sites below a site of a tree are sites of the tree. -/
theorem sitesFrom_subset (address : Address) (site : Site) :
    ∀ json : Json, site ∈ json.sitesFrom address →
      site.node.sitesFrom site.address ⊆ json.sitesFrom address
  | .array items, h => by
    obtain rfl | h := List.mem_cons.1 (by simpa only [sitesFrom] using h)
    · exact List.Subset.refl _
    · exact List.Subset.trans (sitesFrom_subset_items address 0 site items h)
        (by simp only [sitesFrom]; exact List.subset_cons_self _ _)
  | .object fields, h => by
    obtain rfl | h := List.mem_cons.1 (by simpa only [sitesFrom] using h)
    · exact List.Subset.refl _
    · exact List.Subset.trans (sitesFrom_subset_fields address site fields h)
        (by simp only [sitesFrom]; exact List.subset_cons_self _ _)
  | .null, h | .bool _, h | .number _, h | .string _, h => by
    obtain rfl := List.mem_singleton.1 h
    exact List.Subset.refl _

theorem sitesFrom_subset_items (address : Address) (position : Nat) (site : Site) :
    ∀ items : List Json, site ∈ itemSites address position items →
      site.node.sitesFrom site.address ⊆ itemSites address position items
  | [], h => by simp [itemSites] at h
  | item :: items, h => by
    rw [itemSites] at h ⊢
    obtain h | h := List.mem_append.1 h
    · exact List.Subset.trans (sitesFrom_subset _ site item h) (List.subset_append_left _ _)
    · exact List.Subset.trans (sitesFrom_subset_items address _ site items h)
        (List.subset_append_right _ _)

theorem sitesFrom_subset_fields (address : Address) (site : Site) :
    ∀ fields : List (String × Json), site ∈ fieldSites address fields →
      site.node.sitesFrom site.address ⊆ fieldSites address fields
  | [], h => by simp [fieldSites] at h
  | (key, value) :: fields, h => by
    rw [fieldSites] at h ⊢
    obtain h | h := List.mem_append.1 h
    · exact List.Subset.trans (sitesFrom_subset _ site value h) (List.subset_append_left _ _)
    · exact List.Subset.trans (sitesFrom_subset_fields address site fields h)
        (List.subset_append_right _ _)

end

end Json

/-! ## Steps and references -/

namespace Site

variable {tree : Json} {site below : Site} {key : String}

theorem mem_of_mem_zipIdx (h : site ∈ tree.sites) {nodes : List Json}
    (hnode : site.node = .array nodes) {item : Json} {index : Nat}
    (hitem : (item, index) ∈ nodes.zipIdx) :
    ⟨site.address ++ [.index index], item⟩ ∈ tree.sites := by
  have hbelow := Json.sitesFrom_subset_itemSites site.address hitem
    (Json.self_mem_sitesFrom (site.address ++ [.index index]) item)
  refine Json.sitesFrom_subset [] _ tree h ?_
  rw [hnode, Json.sitesFrom]
  exact List.mem_cons_of_mem _ hbelow

theorem mem_of_items? (h : site ∈ tree.sites) {items : List Site}
    (hitems : site.items? = some items) (hitem : below ∈ items) : below ∈ tree.sites := by
  obtain ⟨address, node⟩ := site
  cases node with
  | array nodes =>
    obtain rfl := Option.some.inj hitems
    obtain ⟨⟨item, index⟩, hindex, rfl⟩ := List.mem_map.1 hitem
    exact mem_of_mem_zipIdx h rfl hindex
  | _ => simp [items?, Json.array?] at hitems

theorem mem_of_mem_fields (h : site ∈ tree.sites) {fields : List (String × Json)}
    (hnode : site.node = .object fields) {value : Json} (hfield : (key, value) ∈ fields) :
    ⟨site.address ++ [.key key], value⟩ ∈ tree.sites := by
  have hbelow := Json.sitesFrom_subset_fieldSites site.address hfield
    (Json.self_mem_sitesFrom (site.address ++ [.key key]) value)
  refine Json.sitesFrom_subset [] _ tree h ?_
  rw [hnode, Json.sitesFrom]
  exact List.mem_cons_of_mem _ hbelow

theorem mem_of_members? (h : site ∈ tree.sites) {members : List (String × Site)}
    (hmembers : site.members? = some members) (hmember : (key, below) ∈ members) :
    below ∈ tree.sites := by
  obtain ⟨address, node⟩ := site
  cases node with
  | object fields =>
    obtain rfl := Option.some.inj hmembers
    obtain ⟨⟨name, value⟩, hfield, heq⟩ := List.mem_map.1 hmember
    obtain ⟨rfl, rfl⟩ := Prod.mk.inj heq
    exact mem_of_mem_fields h rfl hfield
  | _ => simp [members?, Json.object?] at hmembers

theorem mem_of_step? (h : site ∈ tree.sites) {step : Step} (hstep : site.step? step = some below) :
    below ∈ tree.sites := by
  obtain ⟨node, hnode, rfl⟩ := Option.map_eq_some_iff.1 hstep
  cases step with
  | key name =>
    cases hobject : site.node with
    | object fields =>
      rw [hobject] at hnode
      exact mem_of_mem_fields h hobject (Entries.mem_of_get?_eq_some hnode)
    | _ => simp [hobject, Json.step?, Json.get?] at hnode
  | index position =>
    cases harray : site.node with
    | array items =>
      refine mem_of_mem_zipIdx h harray ?_
      simpa [harray, Json.step?, List.mem_zipIdx_iff_getElem?] using hnode
    | _ => simp [harray, Json.step?] at hnode

theorem mem_of_get? (h : site ∈ tree.sites) (hget : site.get? key = some below) :
    below ∈ tree.sites :=
  mem_of_step? h hget

/-- A member of a site, or the site itself if it has none. -/
theorem getD_get?_mem (h : site ∈ tree.sites) (key : String) :
    (site.get? key).getD site ∈ tree.sites := by
  cases hget : site.get? key with
  | none => exact h
  | some below => exact mem_of_get? h hget

theorem mem_of_itemsAt (h : site ∈ tree.sites) (hitem : below ∈ site.itemsAt key) :
    below ∈ tree.sites := by
  unfold itemsAt at hitem
  cases hitems : (site.get? key).bind items? with
  | none => simp [hitems] at hitem
  | some items =>
    obtain ⟨array, harray, hsome⟩ := Option.bind_eq_some_iff.1 hitems
    rw [hitems] at hitem
    exact mem_of_items? (mem_of_get? h harray) hsome hitem

theorem mem_of_membersAt (h : site ∈ tree.sites) {name : String}
    (hmember : (name, below) ∈ site.membersAt key) : below ∈ tree.sites := by
  unfold membersAt at hmember
  cases hmembers : (site.get? key).bind members? with
  | none => simp [hmembers] at hmember
  | some members =>
    obtain ⟨object, hobject, hsome⟩ := Option.bind_eq_some_iff.1 hmembers
    rw [hmembers] at hmember
    exact mem_of_members? (mem_of_get? h hobject) hsome hmember

end Site

namespace Pointer

variable {tree : Json} {site target : Site}

theorem mem_of_walk? (h : site ∈ tree.sites) {tokens : List (List Char)}
    (hwalk : walk? site tokens = some target) : target ∈ tree.sites := by
  induction tokens generalizing site with
  | nil =>
    obtain rfl := Option.some.inj hwalk
    exact h
  | cons token tokens ih =>
    obtain ⟨step, -, hrest⟩ := Option.bind_eq_some_iff.1 hwalk
    obtain ⟨below, hbelow, htarget⟩ := Option.bind_eq_some_iff.1 hrest
    exact ih (Site.mem_of_step? h hbelow) htarget

theorem mem_of_find? {reference : String} (h : find? tree reference = some target) :
    target ∈ tree.sites := by
  unfold find? at h
  split at h
  · obtain rfl := Option.some.inj h
    exact Json.root_mem_sites tree
  · exact mem_of_walk? (Json.root_mem_sites tree) h
  · simp at h

theorem mem_of_follow (h : site ∈ tree.sites) {hops : Nat}
    (hfollow : follow tree hops site = .ok target) : target ∈ tree.sites := by
  induction hops generalizing site with
  | zero => simp [follow] at hfollow
  | succ hops ih =>
    unfold follow at hfollow
    split at hfollow
    · obtain rfl := Except.ok.inj hfollow
      exact h
    · split at hfollow
      · simp at hfollow
      · rename_i hfind
        exact ih (mem_of_find? hfind) hfollow

end Pointer

/-! ## Documents -/

def Document.PathsInTree (document : Document) : Prop :=
  ∀ entry ∈ document.paths, entry.2 ∈ document.tree.sites

structure OperationSite.InTree (tree : Json) (operation : OperationSite) : Prop where
  node : operation.node ∈ tree.sites
  item : operation.item ∈ tree.sites

namespace Document

variable {document : Document} {site target : Site}

theorem mem_of_resolve (h : site ∈ document.tree.sites)
    (hresolve : document.resolve site = .ok target) : target ∈ document.tree.sites := by
  unfold resolve at hresolve
  split at hresolve
  · rename_i hfollow
    obtain rfl := Except.ok.inj hresolve
    exact Pointer.mem_of_follow h hfollow
  · simp at hresolve

/-- A document from a tree has the tree and its paths. -/
theorem eq_of_ofTree {tree : Json} (h : ofTree tree = .ok document) :
    document = ⟨tree, (Site.root tree).membersAt "paths"⟩ := by
  unfold ofTree at h
  split at h
  · simp at h
  · split at h
    · simp at h
    · split at h
      · simp at h
      · rename_i hpaths
        obtain rfl := Except.ok.inj h
        rw [Site.membersAt, hpaths]
        rfl

theorem pathsInTree_of_ofTree {tree : Json} (h : ofTree tree = .ok document) :
    document.PathsInTree := by
  rw [eq_of_ofTree h]
  rintro ⟨path, item⟩ hentry
  exact Site.mem_of_membersAt (Json.root_mem_sites tree) hentry

theorem mem_of_schemas {raw : String} (h : (raw, site) ∈ document.schemas) :
    site ∈ document.tree.sites := by
  have hroot : document.root ∈ document.tree.sites := Json.root_mem_sites document.tree
  unfold schemas shared at h
  cases hcomponents : document.root.get? "components" with
  | none =>
    rw [hcomponents] at h
    exact Site.mem_of_membersAt hroot h
  | some components =>
    rw [hcomponents] at h
    exact Site.mem_of_membersAt (Site.mem_of_get? hroot hcomponents) h

theorem inTree_of_operations (hpaths : document.PathsInTree) {operations : List OperationSite}
    (hoperations : document.operations = .ok operations) {operation : OperationSite}
    (h : operation ∈ operations) : operation.InTree document.tree := by
  obtain ⟨groups, hgroups, rfl⟩ := Outcomes.exists_of_map_eq_ok hoperations
  obtain ⟨group, hgroup, hmem⟩ := List.mem_flatten.1 h
  obtain ⟨⟨path, entry⟩, hentry, hpath⟩ := Outcomes.exists_of_mem_mapM hgroups hgroup
  change document.pathOperations path entry = .ok group at hpath
  unfold pathOperations at hpath
  split at hpath
  · simp at hpath
  · rename_i item hitem
    split at hpath
    · simp at hpath
    · rename_i members hmembers
      obtain rfl := Except.ok.inj hpath
      have hsite := Pointer.mem_of_follow (hpaths _ hentry) hitem
      obtain ⟨⟨key, node⟩, hmember, hoperation⟩ := List.mem_filterMap.1 hmem
      dsimp only at hoperation
      split at hoperation
      · split at hoperation
        · obtain rfl := Option.some.inj hoperation
          exact ⟨Site.mem_of_members? hsite hmembers hmember, hsite⟩
        · simp at hoperation
      · simp at hoperation

end Document

theorem mem_of_preferredContent? {tree : Json} {site media : Site} {type : String}
    (h : site ∈ tree.sites) (hcontent : preferredContent? site = some (type, media)) :
    media ∈ tree.sites := by
  obtain ⟨content, hmembers, hchoice⟩ := Option.bind_eq_some_iff.1 hcontent
  obtain ⟨object, hobject, hmembers⟩ := Option.bind_eq_some_iff.1 hmembers
  have hmem : (type, media) ∈ content := by
    obtain hfound | ⟨-, hchoice⟩ := Option.or_eq_some_iff.1 hchoice
    · exact List.mem_of_find?_eq_some hfound
    · obtain hfound | ⟨-, hhead⟩ := Option.or_eq_some_iff.1 hchoice
      · exact List.mem_of_find?_eq_some hfound
      · exact List.mem_of_head? hhead
  exact Site.mem_of_members? (Site.mem_of_get? h hobject) hmembers hmem

namespace OperationSite

variable {document : Document} {operation : OperationSite} {site : Site}

theorem mem_of_mem_merge {sites : List Site} (h : site ∈ ParameterSite.merge other sites) :
    site = other ∨ site ∈ sites := by
  induction sites with
  | nil => simpa [ParameterSite.merge] using h
  | cons first rest ih =>
    unfold ParameterSite.merge at h
    split at h
    · obtain rfl | h := List.mem_cons.1 h
      · exact .inl rfl
      · exact .inr (List.mem_cons_of_mem _ h)
    · obtain rfl | h := List.mem_cons.1 h
      · exact .inr List.mem_cons_self
      · exact (ih h).imp_right (List.mem_cons_of_mem _)

theorem mem_of_mem_merged {sites merged : List Site}
    (h : site ∈ sites.foldl (fun merged site => ParameterSite.merge site merged) merged) :
    site ∈ sites ∨ site ∈ merged := by
  induction sites generalizing merged with
  | nil => exact .inr h
  | cons first rest ih =>
    obtain h | h := ih h
    · exact .inl (List.mem_cons_of_mem _ h)
    · obtain rfl | h := mem_of_mem_merge h
      · exact .inl List.mem_cons_self
      · exact .inr h

theorem mem_of_parameters (h : operation.InTree document.tree) {parameters : List Site}
    (hparameters : operation.parameters document = .ok parameters) (hsite : site ∈ parameters) :
    site ∈ document.tree.sites := by
  obtain ⟨resolved, hresolved, rfl⟩ := Outcomes.exists_of_map_eq_ok hparameters
  obtain hsite | hsite := mem_of_mem_merged hsite
  · obtain ⟨declared, hdeclared, hresolve⟩ := Outcomes.exists_of_mem_mapM hresolved hsite
    refine Document.mem_of_resolve ?_ hresolve
    obtain hdeclared | hdeclared := List.mem_append.1 hdeclared
    · exact Site.mem_of_itemsAt h.item hdeclared
    · exact Site.mem_of_itemsAt h.node hdeclared
  · simp at hsite

theorem mem_of_requestBody? (h : operation.InTree document.tree) {body : BodySite}
    (hbody : operation.requestBody? document = .ok (some body))
    (hschema : body.schema = some site) : site ∈ document.tree.sites := by
  unfold requestBody? at hbody
  split at hbody
  · simp at hbody
  · rename_i declared hdeclared
    obtain ⟨resolved, hresolved, hresult⟩ := Outcomes.exists_of_map_eq_ok hbody
    obtain rfl := Option.some.inj hresult
    have hmem := Document.mem_of_resolve (Site.mem_of_get? h.node hdeclared) hresolved
    cases hcontent : preferredContent? resolved with
    | none => simp [hcontent] at hschema
    | some content =>
      simp only [hcontent] at hschema
      exact Site.mem_of_get? (mem_of_preferredContent? hmem hcontent) hschema

theorem mem_of_responses (h : operation.InTree document.tree) {responses : List ResponseSite}
    (hresponses : operation.responses document = .ok responses) {response : ResponseSite}
    (hresponse : response ∈ responses) : response.node ∈ document.tree.sites := by
  obtain ⟨⟨status, entry⟩, hentry, hresult⟩ := Outcomes.exists_of_mem_mapM hresponses hresponse
  obtain ⟨node, hnode, rfl⟩ := Outcomes.exists_of_map_eq_ok hresult
  exact Document.mem_of_resolve (Site.mem_of_membersAt h.node hentry) hnode

end OperationSite

theorem ParameterSite.mem_of_schema? {tree : Json} {parameter schema : Site}
    (h : parameter ∈ tree.sites) (hschema : ParameterSite.schema? parameter = some schema) :
    schema ∈ tree.sites := by
  unfold ParameterSite.schema? at hschema
  split at hschema
  · rename_i own hown
    obtain rfl := Option.some.inj hschema
    exact Site.mem_of_get? h hown
  · split at hschema
    · obtain rfl := Option.some.inj hschema
      exact h
    · simp at hschema

namespace ResponseSite

variable {document : Document} {response : ResponseSite} {site : Site}

theorem mem_of_schema? (h : response.node ∈ document.tree.sites)
    (hschema : response.schema? = some site) : site ∈ document.tree.sites := by
  unfold schema? at hschema
  split at hschema
  · rename_i hcontent
    exact Site.mem_of_get? (mem_of_preferredContent? h hcontent) hschema
  · exact Site.mem_of_get? h hschema

theorem mem_of_headers (h : response.node ∈ document.tree.sites)
    {headers : List (String × Site)} (hheaders : response.headers document = .ok headers)
    {name : String} (hsite : (name, site) ∈ headers) : site ∈ document.tree.sites := by
  obtain ⟨⟨key, entry⟩, hentry, hresult⟩ := Outcomes.exists_of_mem_mapM hheaders hsite
  obtain ⟨node, hnode, heq⟩ := Outcomes.exists_of_map_eq_ok hresult
  obtain ⟨rfl, rfl⟩ := Prod.mk.inj heq
  exact Document.mem_of_resolve (Site.mem_of_membersAt h hentry) hnode

end ResponseSite

end ServantGen
