import ServantGen.Proofs.Text.Pieces
import ServantGen.Route

/-!
# The steps of a route

A route is walked in steps: one for each component of fixed text and one for each placeholder.
The normal form joins, trims and drops fixed text, but it never changes the steps. The lemmas
go segment by segment: what trimming keeps, what joining keeps, and from both what the whole
normal form keeps.
-/

namespace ServantGen

namespace Segment

/-- The segments of a single component that a segment stands for. -/
def steps (segment : Segment) : List Segment :=
  match segment with
  | .literal _ => segment.components.map .literal
  | .parameter name type => [.parameter name type]
  | .root => []

/-- The components of fixed text are its pieces between slashes that are not empty. -/
theorem components_literal (text : String) :
    (Segment.literal text).components = (Text.pieces isSlash text.toList).map String.ofList := by
  change ((Text.splitBy isSlash text.toList).map String.ofList).filter (· ≠ "") = _
  rw [List.filter_map, Text.pieces]
  congr 1
  apply List.filter_congr
  intro piece _
  simp

/-- No component is empty. -/
theorem ne_empty_of_mem_components {segment : Segment} {component : String}
    (h : component ∈ segment.components) : component ≠ "" := by
  cases segment with
  | literal text => simpa using (List.mem_filter.1 h).2
  | parameter name type => simp [components] at h
  | root => simp [components] at h

theorem components_join (left right : String) :
    (Segment.literal (left ++ "/" ++ right)).components =
      (Segment.literal left).components ++ (Segment.literal right).components := by
  have htext : (left ++ "/" ++ right).toList = left.toList ++ '/' :: right.toList := by simp
  rw [components_literal, htext, Text.pieces_append_cons (by rfl), List.map_append,
    ← components_literal, ← components_literal]

@[simp] theorem steps_literal (text : String) :
    (Segment.literal text).steps = (Segment.literal text).components.map .literal := rfl

@[simp] theorem steps_parameter (name : String) (type : DataType) :
    (Segment.parameter name type).steps = [.parameter name type] := rfl

@[simp] theorem steps_root : Segment.root.steps = [] := rfl

theorem root_notMem_steps (segment : Segment) : Segment.root ∉ segment.steps := by
  cases segment <;> simp

/-- Fixed text of one component is its own step. -/
theorem steps_literal_of_no_slash {text : String} (h : ∀ c ∈ text.toList, isSlash c = false)
    (hne : text ≠ "") : (Segment.literal text).steps = [.literal text] := by
  have hchars : text.toList ≠ [] := by simpa using hne
  simp [components_literal, Text.pieces_of_no_break h hchars]

/-- Trimming keeps the steps; what it drops has none. -/
theorem steps_trimmed? (segment : Segment) :
    segment.trimmed?.toList.flatMap steps = segment.steps := by
  cases segment with
  | literal text =>
    have hpieces := @Text.pieces_trimBy isSlash text.toList
    simp only [trimmed?]
    split
    · rename_i hnil
      rw [steps_literal, components_literal, ← hpieces, hnil, Text.pieces_nil]
      rfl
    · simp [components_literal]
  | parameter name type => rfl
  | root => rfl

/-- What trimming leaves of a segment has a step. -/
theorem steps_ne_nil_of_trimmed?_eq_some {segment rest : Segment}
    (h : segment.trimmed? = some rest) : segment.steps ≠ [] := by
  cases segment with
  | literal text =>
    intro hsteps
    rw [steps_literal, components_literal, List.map_map, List.map_eq_nil_iff] at hsteps
    simp [trimmed?, Text.trimBy_eq_nil_of_pieces_eq_nil hsteps] at h
  | parameter name type => simp
  | root => simp [trimmed?] at h

theorem trimmed?_ne_some_root (segment : Segment) : segment.trimmed? ≠ some .root := by
  cases segment with
  | literal text =>
    simp only [trimmed?]
    split <;> simp
  | parameter name type => simp [trimmed?]
  | root => simp [trimmed?]

theorem steps_glue (segment : Segment) (rest : List Segment) :
    (glue segment rest).flatMap steps = segment.steps ++ rest.flatMap steps := by
  unfold glue
  split
  · simp [components_join]
  · rfl

/-- Joining fixed texts makes no root. -/
theorem root_notMem_glue {segment : Segment} {rest : List Segment} (hsegment : segment ≠ .root)
    (hrest : Segment.root ∉ rest) : Segment.root ∉ glue segment rest := by
  unfold glue
  split
  · simpa using hrest
  · rw [List.mem_cons, not_or]
    exact ⟨hsegment.symm, hrest⟩

theorem root_notMem_foldr_glue {segments : List Segment} (h : Segment.root ∉ segments) :
    Segment.root ∉ segments.foldr glue [] := by
  induction segments with
  | nil => simp
  | cons segment segments ih =>
    rw [List.mem_cons, not_or] at h
    exact root_notMem_glue (Ne.symm h.1) (ih h.2)

theorem steps_foldr_glue (segments : List Segment) :
    (segments.foldr glue []).flatMap steps = segments.flatMap steps := by
  induction segments with
  | nil => rfl
  | cons segment segments ih => rw [List.foldr_cons, steps_glue, ih, List.flatMap_cons]

theorem steps_filterMap_trimmed? (segments : List Segment) :
    (segments.filterMap trimmed?).flatMap steps = segments.flatMap steps := by
  induction segments with
  | nil => rfl
  | cons segment segments ih =>
    have hhead : (segment :: segments).filterMap trimmed? =
        segment.trimmed?.toList ++ segments.filterMap trimmed? := by
      rw [List.filterMap_cons]
      cases segment.trimmed? <;> rfl
    rw [hhead, List.flatMap_append, steps_trimmed?, ih, List.flatMap_cons]

end Segment

namespace Route

def steps (route : Route) : List Segment :=
  route.segments.flatMap Segment.steps

/-- No step is an empty text. -/
theorem literal_empty_notMem_steps (route : Route) : Segment.literal "" ∉ route.steps := by
  intro hmem
  obtain ⟨segment, -, hstep⟩ := List.mem_flatMap.1 hmem
  cases segment with
  | literal text =>
    obtain ⟨component, hcomponent, heq⟩ := List.mem_map.1 hstep
    exact Segment.ne_empty_of_mem_components hcomponent (Segment.literal.inj heq)
  | parameter name type => simp at hstep
  | root => simp at hstep

/-- The normal form keeps the steps of the segments it is made from. -/
theorem steps_ofSegments (segments : List Segment) :
    (Route.ofSegments segments).steps = segments.flatMap Segment.steps := by
  have hnormal : ((segments.filterMap Segment.trimmed?).foldr Segment.glue []).flatMap
      Segment.steps = segments.flatMap Segment.steps := by
    rw [Segment.steps_foldr_glue, Segment.steps_filterMap_trimmed?]
  unfold steps ofSegments
  split
  · rename_i hnil
    rw [← hnormal, hnil]
    rfl
  · exact hnormal

/-- Without any step the normal form is the root. -/
theorem segments_ofSegments_of_no_steps {segments : List Segment}
    (h : segments.flatMap Segment.steps = []) : (ofSegments segments).segments = [.root] := by
  have hnone : segments.filterMap Segment.trimmed? = [] := by
    rw [List.filterMap_eq_nil_iff]
    intro segment hmem
    by_contra hsome
    obtain ⟨rest, hrest⟩ := Option.ne_none_iff_exists'.1 hsome
    exact Segment.steps_ne_nil_of_trimmed?_eq_some hrest (List.flatMap_eq_nil_iff.1 h segment hmem)
  simp [ofSegments, hnone]

/-- With a step the root is no part of the normal form. -/
theorem root_notMem_ofSegments {segments : List Segment}
    (h : segments.flatMap Segment.steps ≠ []) : Segment.root ∉ (ofSegments segments).segments := by
  have hroot : Segment.root ∉ (segments.filterMap Segment.trimmed?).foldr Segment.glue [] := by
    apply Segment.root_notMem_foldr_glue
    intro hmem
    obtain ⟨segment, -, hsegment⟩ := List.mem_filterMap.1 hmem
    exact Segment.trimmed?_ne_some_root segment hsegment
  rw [← steps_ofSegments] at h
  unfold steps ofSegments at h
  unfold ofSegments
  split
  · rename_i hnil
    rw [hnil] at h
    simp at h
  · exact hroot

end Route

end ServantGen
