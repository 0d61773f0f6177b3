import Mathlib.Data.List.Sort
import Mathlib.Data.String.Basic
import ServantGen.Proofs.Closure.Api

/-!
# Groups of operations

Operations are grouped by their first tag, those without a tag under one of their own. No operation
is lost or repeated on the way: the groups put together are the operations in another order, and
inside a group the order is that of the interface. With the groups in the order of their tags there
is only one way to group the operations.
-/

namespace ServantGen

namespace Api

variable {api : Api}

/-- Operations that are picked tag by tag are those that have one of the tags. -/
theorem flatMap_filter_perm (operations : List Operation) {tags : List String}
    (honce : tags.Nodup) :
    (tags.flatMap fun tag => operations.filter fun operation => groupTag operation == tag).Perm
      (operations.filter fun operation => tags.contains (groupTag operation)) := by
  induction tags with
  | nil => simp
  | cons tag tags ih =>
    obtain ⟨htag, hrest⟩ := List.nodup_cons.1 honce
    have hsplit := List.filter_append_perm (fun operation => groupTag operation == tag)
      (operations.filter fun operation => (tag :: tags).contains (groupTag operation))
    have hfirst : (operations.filter fun operation =>
        (tag :: tags).contains (groupTag operation)).filter (groupTag · == tag) =
        operations.filter (groupTag · == tag) := by
      rw [List.filter_filter]
      refine List.filter_congr fun operation _ => ?_
      by_cases heq : groupTag operation = tag <;> simp [heq]
    have hothers : (operations.filter fun operation =>
        (tag :: tags).contains (groupTag operation)).filter (fun o => !(groupTag o == tag)) =
        operations.filter fun operation => tags.contains (groupTag operation) := by
      rw [List.filter_filter]
      refine List.filter_congr fun operation _ => ?_
      by_cases heq : groupTag operation = tag
      · simp [heq, htag]
      · simp [heq]
    rw [hfirst, hothers] at hsplit
    exact ((ih hrest).append_left _).trans hsplit

theorem groupTag_mem_tags {operation : Operation} (h : operation ∈ api.operations) :
    groupTag operation ∈ api.tags := by
  obtain ⟨tag, htag, heq⟩ := @exists_mem_firstBy _ id [] (api.operations.map groupTag) _
    (List.mem_map_of_mem h) List.not_mem_nil
  exact (show tag = groupTag operation from heq) ▸ htag

/-- A tag has an operation. -/
theorem operations_ne_nil_of_mem_tagGroups {group : TagGroup} (h : group ∈ api.tagGroups) :
    group.operations ≠ [] := by
  obtain ⟨tag, htag, rfl⟩ := List.mem_map.1 h
  have htag := (mem_of_mem_firstBy (List.mem_mergeSort.1 htag)).1
  obtain ⟨operation, hmem, rfl⟩ := List.mem_map.1 htag
  exact List.ne_nil_of_mem (List.mem_filter.2 ⟨hmem, beq_self_eq_true _⟩)

theorem nodup_tags (api : Api) : api.tags.Nodup := by
  have honce := @nodup_map_firstBy _ id [] (api.operations.map groupTag)
  rwa [List.map_id] at honce

/-- The groups hold every operation as often as the interface does. -/
theorem tagGroups_perm (api : Api) :
    (api.tagGroups.flatMap TagGroup.operations).Perm api.operations := by
  have hall : (api.operations.filter fun operation => api.tags.contains (groupTag operation)) =
      api.operations := by
    rw [List.filter_eq_self]
    exact fun operation hmem => List.contains_iff_mem.2 (groupTag_mem_tags hmem)
  have hpicked := flatMap_filter_perm api.operations api.nodup_tags
  rw [hall] at hpicked
  rw [tagGroups, List.flatMap_map]
  exact ((List.mergeSort_perm _ _).flatMap_right _).trans hpicked

/-! ## The one way to group -/

/-- Every operation is in one group, the one of its first tag or of the tag for operations without
one, and stands there in the order of the interface. No group is empty, and the tags of the groups
increase. -/
structure GroupsByTag (operations : List Operation) (groups : List TagGroup) : Prop where
  inhabited : ∀ group ∈ groups, group.operations ≠ []
  increasing : groups.Pairwise fun first second => first.tag < second.tag
  tagged : ∀ group ∈ groups, ∀ operation ∈ group.operations,
    group.tag = operation.tags.head?.getD "default"
  one : ∀ operation ∈ operations, ∃! group, group ∈ groups ∧ operation ∈ group.operations
  inOrder : ∀ group ∈ groups, group.operations.Sublist operations
  complete : (groups.flatMap TagGroup.operations).Perm operations

theorem mem_tagGroups_iff {group : TagGroup} : group ∈ api.tagGroups ↔
    group.tag ∈ api.tags ∧
      group.operations = api.operations.filter fun own => groupTag own == group.tag := by
  rw [tagGroups, List.mem_map]
  constructor
  · rintro ⟨tag, htag, rfl⟩
    exact ⟨List.mem_mergeSort.1 htag, rfl⟩
  · rintro ⟨htag, hoperations⟩
    exact ⟨group.tag, List.mem_mergeSort.2 htag, by rw [← hoperations]⟩

/-- Sorted tags that are distinct increase. -/
theorem increasing_tagGroups (api : Api) :
    api.tagGroups.Pairwise fun first second => first.tag < second.tag := by
  have hsorted := List.pairwise_mergeSort' (· ≤ ·) api.tags
  have honce : (api.tags.mergeSort fun first second => first ≤ second).Nodup :=
    (List.mergeSort_perm _ _).nodup_iff.2 api.nodup_tags
  rw [tagGroups, List.pairwise_map]
  exact (hsorted.and honce).imp fun h => lt_of_le_of_ne h.1 h.2

theorem groupsByTag_tagGroups (api : Api) : GroupsByTag api.operations api.tagGroups where
  inhabited := fun group => operations_ne_nil_of_mem_tagGroups
  increasing := increasing_tagGroups api
  tagged := by
    intro group hgroup operation hoperation
    rw [(mem_tagGroups_iff.1 hgroup).2] at hoperation
    exact (beq_iff_eq.1 (List.mem_filter.1 hoperation).2).symm
  one := by
    intro operation hoperation
    let group : TagGroup := ⟨groupTag operation, api.operations.filter fun other =>
      groupTag other == groupTag operation⟩
    have hgroup : group ∈ api.tagGroups :=
      mem_tagGroups_iff.2 ⟨groupTag_mem_tags hoperation, rfl⟩
    refine ⟨group, ⟨hgroup, List.mem_filter.2 ⟨hoperation, beq_self_eq_true _⟩⟩, ?_⟩
    rintro ⟨tag, operations⟩ ⟨hother, hmem⟩
    obtain ⟨-, hoperations⟩ := mem_tagGroups_iff.1 hother
    rw [hoperations] at hmem
    have htag : groupTag operation = tag := beq_iff_eq.1 (List.mem_filter.1 hmem).2
    rw [TagGroup.mk.injEq]
    exact ⟨htag.symm, htag ▸ hoperations⟩
  inOrder := by
    intro group hgroup
    rw [(mem_tagGroups_iff.1 hgroup).2]
    exact List.filter_sublist
  complete := tagGroups_perm api

namespace GroupsByTag

variable {operations : List Operation} {groups others : List TagGroup}

theorem filter_eq_nil {tag : String} (htagged : ∀ group ∈ groups, ∀ operation ∈ group.operations,
    group.tag = groupTag operation) (htag : tag ∉ groups.map TagGroup.tag) :
    (groups.flatMap TagGroup.operations).filter (groupTag · == tag) = [] := by
  rw [List.filter_eq_nil_iff]
  intro operation hoperation heq
  obtain ⟨group, hgroup, hmem⟩ := List.mem_flatMap.1 hoperation
  refine htag (List.mem_map.2 ⟨group, hgroup, ?_⟩)
  rw [htagged group hgroup operation hmem, beq_iff_eq.1 heq]

/-- Of all operations in the groups, those of one tag are the ones in its group. -/
theorem filter_flatMap (h : GroupsByTag operations groups) {group : TagGroup}
    (hgroup : group ∈ groups) :
    (groups.flatMap TagGroup.operations).filter (groupTag · == group.tag) = group.operations := by
  obtain ⟨before, after, rfl⟩ := List.append_of_mem hgroup
  have honce : ((before ++ group :: after).map TagGroup.tag).Nodup :=
    List.pairwise_map.2 (h.increasing.imp ne_of_lt)
  rw [List.map_append, List.map_cons, List.nodup_middle, List.nodup_cons, List.mem_append,
    not_or] at honce
  obtain ⟨⟨hbefore, hafter⟩, -⟩ := honce
  have htagged := h.tagged
  rw [List.forall_mem_append, List.forall_mem_cons] at htagged
  obtain ⟨htaggedBefore, hown, htaggedAfter⟩ := htagged
  rw [List.flatMap_append, List.flatMap_cons, List.filter_append, List.filter_append,
    filter_eq_nil htaggedBefore hbefore, filter_eq_nil htaggedAfter hafter, List.nil_append,
    List.append_nil, List.filter_eq_self]
  exact fun operation hmem => beq_iff_eq.2 (hown operation hmem).symm

theorem operations_eq (h : GroupsByTag operations groups) {group : TagGroup}
    (hgroup : group ∈ groups) :
    group.operations = operations.filter fun operation => groupTag operation == group.tag := by
  have hkept : group.operations.filter (groupTag · == group.tag) = group.operations :=
    List.filter_eq_self.2 fun operation hmem =>
      beq_iff_eq.2 (h.tagged group hgroup operation hmem).symm
  have hsublist := (h.inOrder group hgroup).filter (groupTag · == group.tag)
  rw [hkept] at hsublist
  have hperm := h.complete.filter (groupTag · == group.tag)
  rw [h.filter_flatMap hgroup] at hperm
  exact hsublist.eq_of_length hperm.length_eq

/-- The tags of the groups are those of the operations. -/
theorem mem_map_tag_iff (h : GroupsByTag operations groups) {tag : String} :
    tag ∈ groups.map TagGroup.tag ↔ ∃ operation ∈ operations, groupTag operation = tag := by
  rw [List.mem_map]
  constructor
  · rintro ⟨group, hgroup, rfl⟩
    obtain ⟨operation, hmem⟩ := List.exists_mem_of_ne_nil _ (h.inhabited group hgroup)
    have hoperation := (h.inOrder group hgroup).subset hmem
    exact ⟨operation, hoperation, (h.tagged group hgroup operation hmem).symm⟩
  · rintro ⟨operation, hoperation, rfl⟩
    obtain ⟨group, ⟨hgroup, hmem⟩, -⟩ := h.one operation hoperation
    exact ⟨group, hgroup, h.tagged group hgroup operation hmem⟩

theorem unique (h : GroupsByTag operations groups) (h' : GroupsByTag operations others) :
    groups = others := by
  have hform : ∀ {list}, GroupsByTag operations list → list =
      (list.map TagGroup.tag).map fun tag =>
        ⟨tag, operations.filter fun operation => groupTag operation == tag⟩ := by
    intro list hlist
    rw [List.map_map]
    refine ((List.map_congr_left fun group hgroup => ?_).trans (List.map_id list)).symm
    rw [Function.comp_apply, ← hlist.operations_eq hgroup]
    rfl
  have htags : groups.map TagGroup.tag = others.map TagGroup.tag :=
    List.Pairwise.eq_of_mem_iff (List.pairwise_map.2 h.increasing)
      (List.pairwise_map.2 h'.increasing) fun tag => by rw [h.mem_map_tag_iff, h'.mem_map_tag_iff]
  rw [hform h, hform h', htags]

end GroupsByTag

/-- The groups of an interface are the one way to put each operation under its tag, with the tags
and, under each of them, the operations in order. -/
theorem eq_tagGroups_iff (api : Api) (groups : List TagGroup) :
    groups = api.tagGroups ↔ GroupsByTag api.operations groups := by
  constructor
  · rintro rfl
    exact groupsByTag_tagGroups api
  · exact fun h => h.unique (groupsByTag_tagGroups api)

end Api

end ServantGen
