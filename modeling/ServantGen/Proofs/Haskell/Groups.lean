import ServantGen.Proofs.Api.TagGroups
import ServantGen.Proofs.Haskell.Files

/-!
# Groups of endpoints

Each group of the module of an interface holds the endpoints of the operations of its tag, and the
notes on the module tell of types that were replaced by text as often as its endpoints do.
-/

namespace ServantGen

namespace Haskell

variable {context : RenderContext}

/-- Each group has the endpoints of its operations. -/
theorem map_endpoints_groupsOf (context : RenderContext) (scope : NameScope)
    (groups : List TagGroup) :
    (groupsOf context scope groups).1.map EndpointGroup.endpoints = groups.map fun group =>
      group.operations.map fun operation => (endpointOf context operation).1 := by
  induction groups generalizing scope with
  | nil => rfl
  | cons group rest ih =>
    simp only [groupsOf, List.map_cons, ih]
    simp

/-- The endpoints of the groups are those of their operations, in order. -/
theorem endpoints_groupsOf (context : RenderContext) (scope : NameScope)
    (groups : List TagGroup) :
    (groupsOf context scope groups).1.flatMap EndpointGroup.endpoints =
      (groups.flatMap TagGroup.operations).map fun operation =>
        (endpointOf context operation).1 := by
  rw [List.flatMap_def, map_endpoints_groupsOf, ← List.flatMap_def, List.map_flatMap]

/-- Whether a note tells of a type that was replaced by text. -/
def isFallback : RenderNote → Bool
  | .fallback _ => true
  | .renamed _ => false

/-- Besides the notes on endpoints there are only those on names. -/
theorem filter_notes_groupsOf (context : RenderContext) (scope : NameScope)
    (groups : List TagGroup) :
    (groupsOf context scope groups).2.filter isFallback =
      ((groups.flatMap TagGroup.operations).flatMap fun operation =>
        (endpointOf context operation).2).filter isFallback := by
  induction groups generalizing scope with
  | nil => rfl
  | cons group rest ih =>
    have hnames : ∀ collision : Option Collision,
        (collision.map RenderNote.renamed).toList.filter isFallback = [] := by
      rintro (_ | _) <;> rfl
    simp only [groupsOf, List.filter_append, hnames, ih, List.flatMap_cons, List.flatMap_append,
      List.flatMap_map, List.nil_append]

end Haskell

end ServantGen
