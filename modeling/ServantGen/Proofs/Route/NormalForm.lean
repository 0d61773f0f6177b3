import Mathlib.Data.List.Chain
import Mathlib.Data.List.DropRight
import ServantGen.Proofs.Route.Steps

/-!
# The normal form of a route

Bringing segments into normal form trims each fixed text, drops what is nothing but slashes
and joins neighbours. What the result looks like is said apart from how it is reached: no two
fixed texts side by side, each of them trimmed, the root on its own or not at all. The two meet
in `ofSegments_eq_self_iff`: the routes in normal form are exactly those that are left as they
are, so a second pass changes nothing.
-/

namespace ServantGen

/-! ## Trimmed texts -/

namespace Text

variable {drop : Char → Bool}

/-- A text that neither starts nor ends with a character to drop. -/
def IsTrimmed (drop : Char → Bool) (text : List Char) : Prop :=
  (∀ c ∈ text.head?, drop c = false) ∧ ∀ c ∈ text.getLast?, drop c = false

theorem head?_dropWhile (text : List Char) :
    ∀ c ∈ (text.dropWhile drop).head?, drop c = false := by
  intro c hc
  have h := List.head?_dropWhile_not drop text
  rw [Option.mem_def.1 hc] at h
  exact h

/-- Trimming leaves no character to drop at either end. -/
theorem isTrimmed_trimBy (text : List Char) : IsTrimmed drop (trimBy drop text) := by
  constructor
  · intro c hc
    -- Trimming the end takes nothing from the start.
    obtain ⟨rest, hrest⟩ : trimBy drop text <+: text.dropWhile drop :=
      List.rdropWhile_prefix drop (text.dropWhile drop)
    apply head?_dropWhile text c
    rw [← hrest, List.head?_append, Option.mem_def.1 hc]
    rfl
  · intro c hc
    rw [trimBy, List.getLast?_reverse] at hc
    exact head?_dropWhile _ c hc

theorem dropWhile_eq_self {text : List Char} (h : ∀ c ∈ text.head?, drop c = false) :
    text.dropWhile drop = text := by
  cases text with
  | nil => rfl
  | cons c text => exact List.dropWhile_cons_of_neg (by simp [h c rfl])

/-- A trimmed text is left as it is. -/
theorem IsTrimmed.trimBy_eq {text : List Char} (h : IsTrimmed drop text) :
    trimBy drop text = text := by
  obtain ⟨hfirst, hlast⟩ := h
  rw [← List.head?_reverse] at hlast
  rw [trimBy, dropWhile_eq_self hfirst, dropWhile_eq_self hlast, List.reverse_reverse]

/-- Trimmed texts that are not empty stay trimmed with something between them. -/
theorem IsTrimmed.around {before after : List Char} (hbefore : IsTrimmed drop before)
    (hafter : IsTrimmed drop after) (hfirst : before ≠ []) (hlast : after ≠ [])
    (between : List Char) : IsTrimmed drop (before ++ between ++ after) := by
  constructor
  · rw [List.append_assoc, List.head?_append_of_ne_nil _ hfirst]
    exact hbefore.1
  · rw [List.getLast?_append_of_ne_nil _ hlast]
    exact hafter.2

end Text

/-! ## Single segments -/

namespace Segment

/-- A segment that a route cannot do without: a placeholder, or text with more than slashes. -/
def Counts : Segment → Prop
  | .literal text => ∃ c ∈ text.toList, c ≠ '/'
  | .parameter .. => True
  | .root => False

/-- Not two fixed texts. -/
def Apart (left right : Segment) : Prop :=
  ∀ before after, ¬(left = .literal before ∧ right = .literal after)

/-- A placeholder, or text that is not empty and has no slash at either end. -/
def IsTidy : Segment → Prop
  | .literal text => text ≠ "" ∧ text.toList.head? ≠ some '/' ∧ text.toList.getLast? ≠ some '/'
  | .parameter .. => True
  | .root => False

theorem isTidy_literal_iff {text : String} :
    (Segment.literal text).IsTidy ↔ text.toList ≠ [] ∧ Text.IsTrimmed isSlash text.toList := by
  have hslash : ∀ atEnd : Option Char, atEnd ≠ some '/' ↔ ∀ c ∈ atEnd, isSlash c = false := by
    intro atEnd
    cases atEnd with
    | none => simp
    | some c => simp [isSlash]
  rw [IsTidy, hslash, hslash, Text.IsTrimmed, ne_eq, ne_eq, String.toList_eq_nil_iff]

/-- The segments that count are those that make a step. -/
theorem steps_ne_nil_iff {segment : Segment} : segment.steps ≠ [] ↔ segment.Counts := by
  cases segment with
  | literal text =>
    rw [steps_literal, ne_eq, List.map_eq_nil_iff, components_literal, List.map_eq_nil_iff]
    constructor
    · intro hpieces
      by_contra hnone
      apply hpieces
      apply Text.pieces_eq_nil_of_isBreak
      intro c hc
      by_contra hslash
      exact hnone ⟨c, hc, by simpa [isSlash] using hslash⟩
    · rintro ⟨c, hc, hne⟩ hpieces
      have hslash := Text.isBreak_of_pieces_eq_nil hpieces c hc
      exact hne (by simpa [isSlash] using hslash)
  | parameter name type => simp [Counts]
  | root => simp [Counts]

theorem flatMap_steps_eq_nil_iff {segments : List Segment} :
    segments.flatMap steps = [] ↔ ∀ segment ∈ segments, ¬segment.Counts := by
  simp only [List.flatMap_eq_nil_iff, ← steps_ne_nil_iff, not_not]

/-- Whether a fixed text stands apart from what follows does not depend on the text. -/
theorem Apart.of_literal {text : String} {right : Segment} (h : Apart (.literal text) right)
    (other : String) : Apart (.literal other) right := by
  rintro before after ⟨-, hright⟩
  exact h text after ⟨rfl, hright⟩

/-! ## Trimming and joining -/

/-- Trimming leaves a tidy segment, if it leaves any. -/
theorem isTidy_of_trimmed?_eq_some {segment rest : Segment} (h : segment.trimmed? = some rest) :
    rest.IsTidy := by
  cases segment with
  | literal text =>
    simp only [trimmed?] at h
    split at h
    · cases h
    · rename_i inner hne
      obtain rfl := Option.some.inj h
      rw [isTidy_literal_iff, String.toList_ofList]
      exact ⟨hne, Text.isTrimmed_trimBy text.toList⟩
  | parameter name type =>
    obtain rfl := Option.some.inj h
    trivial
  | root => cases h

/-- A tidy segment is trimmed already. -/
theorem IsTidy.trimmed?_eq {segment : Segment} (h : segment.IsTidy) :
    segment.trimmed? = some segment := by
  cases segment with
  | literal text =>
    obtain ⟨hne, htrimmed⟩ := isTidy_literal_iff.1 h
    simp only [trimmed?, htrimmed.trimBy_eq, String.ofList_toList]
  | parameter name type => rfl
  | root => exact h.elim

/-- Joining keeps every segment tidy. -/
theorem isTidy_glue {segment : Segment} {rest : List Segment} (hsegment : segment.IsTidy)
    (hrest : ∀ next ∈ rest, next.IsTidy) : ∀ next ∈ glue segment rest, next.IsTidy := by
  unfold glue
  split
  · rename_i text next rest
    obtain ⟨hnext, hrest⟩ := List.forall_mem_cons.1 hrest
    obtain ⟨htext, htrimmed⟩ := isTidy_literal_iff.1 hsegment
    obtain ⟨hnext, hnextTrimmed⟩ := isTidy_literal_iff.1 hnext
    refine List.forall_mem_cons.2 ⟨isTidy_literal_iff.2 ⟨?_, ?_⟩, hrest⟩
    · simp
    · have haround := htrimmed.around hnextTrimmed htext hnext ['/']
      simpa using haround
  · exact List.forall_mem_cons.2 ⟨hsegment, hrest⟩

/-- Joining leaves no two fixed texts side by side. -/
theorem isChain_glue (segment : Segment) {rest : List Segment} (h : rest.IsChain Apart) :
    (glue segment rest).IsChain Apart := by
  unfold glue
  split
  · rename_i text next rest
    rw [List.isChain_cons] at h ⊢
    exact ⟨fun after hafter => (h.1 after hafter).of_literal _, h.2⟩
  · rename_i segment rest hnone
    rw [List.isChain_cons]
    refine ⟨?_, h⟩
    rintro next hnext before after ⟨rfl, rfl⟩
    obtain ⟨others, rfl⟩ := List.head?_eq_some_iff.1 hnext
    exact hnone before after others rfl rfl

/-- Segments that stand apart are not joined. -/
theorem glue_eq_cons {segment : Segment} {rest : List Segment}
    (h : (segment :: rest).IsChain Apart) : glue segment rest = segment :: rest := by
  unfold glue
  split
  · rename_i text next rest
    rw [List.isChain_cons_cons] at h
    exact absurd ⟨rfl, rfl⟩ (h.1 text next)
  · rfl

theorem foldr_glue_eq_self {segments : List Segment} (h : segments.IsChain Apart) :
    segments.foldr glue [] = segments := by
  induction segments with
  | nil => rfl
  | cons segment segments ih => rw [List.foldr_cons, ih h.tail, glue_eq_cons h]

/-- What trimming and joining make of any segments. -/
theorem foldr_glue_normal (segments : List Segment) :
    let joined := (segments.filterMap trimmed?).foldr glue []
    (∀ segment ∈ joined, segment.IsTidy) ∧ joined.IsChain Apart := by
  induction segments with
  | nil => simp
  | cons segment segments ih =>
    obtain ⟨htidy, hchain⟩ := ih
    cases hrest : segment.trimmed? with
    | none =>
      rw [List.filterMap_cons_none hrest]
      exact ⟨htidy, hchain⟩
    | some rest =>
      rw [List.filterMap_cons_some hrest, List.foldr_cons]
      exact ⟨isTidy_glue (isTidy_of_trimmed?_eq_some hrest) htidy, isChain_glue rest hchain⟩

end Segment

/-! ## Whole routes -/

namespace Route

/-- A route in normal form: there is a segment, no two fixed texts are neighbours, no fixed text
is empty or has a slash at either end, and the root is the only segment or none. -/
structure IsNormal (route : Route) : Prop where
  ne_nil : route.segments ≠ []
  apart : route.segments.IsChain Segment.Apart
  tidy : ∀ text, .literal text ∈ route.segments →
    text ≠ "" ∧ text.toList.head? ≠ some '/' ∧ text.toList.getLast? ≠ some '/'
  alone : .root ∈ route.segments → route.segments = [.root]

theorem IsNormal.root : IsNormal ⟨[.root]⟩ where
  ne_nil := by simp
  apart := List.isChain_singleton _
  tidy := by simp
  alone _ := rfl

/-- Every list of segments is brought into normal form. -/
theorem isNormal_ofSegments (segments : List Segment) : (ofSegments segments).IsNormal := by
  obtain ⟨htidy, hchain⟩ := Segment.foldr_glue_normal segments
  unfold ofSegments
  split
  · exact IsNormal.root
  · rename_i hne
    exact {
      ne_nil := hne
      apart := hchain
      tidy := fun text htext => htidy _ htext
      alone := fun hroot => (htidy _ hroot).elim }

/-- A route in normal form is left as it is. -/
theorem IsNormal.ofSegments_eq {route : Route} (h : route.IsNormal) :
    ofSegments route.segments = route := by
  by_cases hroot : .root ∈ route.segments
  · obtain ⟨segments⟩ := route
    obtain rfl : segments = [.root] := h.alone hroot
    rfl
  · have htidy : ∀ segment ∈ route.segments, segment.IsTidy := by
      intro segment hmem
      cases segment with
      | literal text => exact h.tidy text hmem
      | parameter name type => trivial
      | root => exact absurd hmem hroot
    have htrimmed : route.segments.filterMap Segment.trimmed? = route.segments := by
      rw [List.filterMap_congr fun segment hmem => (htidy segment hmem).trimmed?_eq,
        List.filterMap_some]
    simp only [ofSegments, htrimmed, Segment.foldr_glue_eq_self h.apart]
    split
    · rename_i hnil
      exact absurd hnil h.ne_nil
    · rfl

/-- The routes in normal form are the fixed points. -/
theorem ofSegments_eq_self_iff {route : Route} :
    ofSegments route.segments = route ↔ route.IsNormal := by
  constructor
  · intro h
    rw [← h]
    exact isNormal_ofSegments route.segments
  · exact IsNormal.ofSegments_eq

/-- The root is left exactly of segments none of which counts. -/
theorem ofSegments_eq_root_iff {segments : List Segment} :
    (ofSegments segments).segments = [.root] ↔ ∀ segment ∈ segments, ¬segment.Counts := by
  rw [← Segment.flatMap_steps_eq_nil_iff]
  constructor
  · intro hroot
    rw [← steps_ofSegments, steps, hroot]
    rfl
  · exact segments_ofSegments_of_no_steps

/-! ## Routes as text -/

end Route

namespace Segment

/-- A component or placeholder as a route shows it, behind its slash. -/
def shown : Segment → String
  | .literal component => "/" ++ component
  | .parameter name _ => "/\x7b" ++ name ++ "\x7d"
  | .root => ""

end Segment

namespace Route

/-- A route other than the root shows its steps one after another. -/
theorem text_of_not_isRoot {route : Route} (h : route.isRoot = false) :
    route.text = String.join (route.steps.map Segment.shown) := by
  rw [text, h, steps, List.map_flatMap]
  have hjoin : ∀ segments : List Segment,
      String.join (segments.map fun
        | .literal text => String.join ((Segment.literal text).components.map ("/" ++ ·))
        | .parameter name _ => "/\x7b" ++ name ++ "\x7d"
        | .root => "") =
      String.join (segments.flatMap fun segment => segment.steps.map Segment.shown) := by
    intro segments
    induction segments with
    | nil => rfl
    | cons segment segments ih =>
      rw [List.map_cons, String.join_cons, ih, List.flatMap_cons, String.join_append]
      cases segment with
      | literal text => simp [Segment.shown, Function.comp_def]
      | parameter name type => simp [Segment.shown]
      | root => simp
  exact hjoin route.segments

/-- What is to be said of the normal form of a list of segments. -/
structure IsNormalFormOf (route : Route) (segments : List Segment) : Prop where
  normal : route.IsNormal
  /-- Nothing but the root is left exactly when nothing counts. -/
  root : .root ∈ route.segments ↔ ∀ segment ∈ segments, ¬segment.Counts
  /-- The components and placeholders are the same, in the same order. -/
  steps : route.steps = segments.flatMap Segment.steps
  again : ofSegments route.segments = route
  text_root : .root ∈ route.segments → route.text = "/"
  text : .root ∉ route.segments →
    route.text = String.join ((segments.flatMap Segment.steps).map Segment.shown)

/-- Whatever slashes a list of segments has, its normal form is reached in one pass, loses no
component and no placeholder and shows each of them behind a slash. -/
theorem ofSegments_isNormalFormOf (segments : List Segment) :
    (ofSegments segments).IsNormalFormOf segments := by
  have hnormal := isNormal_ofSegments segments
  have hroot : .root ∈ (ofSegments segments).segments ↔
      (ofSegments segments).segments = [.root] :=
    ⟨hnormal.alone, fun h => by rw [h]; exact List.mem_singleton_self _⟩
  exact {
    normal := hnormal
    root := hroot.trans ofSegments_eq_root_iff
    steps := steps_ofSegments segments
    again := hnormal.ofSegments_eq
    text_root := fun h => by rw [Route.text, isRoot, hroot.1 h]; rfl
    text := fun h => by
      rw [← steps_ofSegments]
      apply text_of_not_isRoot
      rw [isRoot, beq_eq_false_iff_ne]
      exact fun hsegments => h (hroot.2 hsegments) }

/-- Slashes at the ends and between components, and a root among other segments. -/
example :
    let segments : List Segment :=
      [.literal "/api//", .root, .literal "//", .literal "v1/x/", .parameter "id" .string]
    (ofSegments segments).segments = [.literal "api/v1/x", .parameter "id" .string] ∧
      (ofSegments segments).text = "/api/v1/x/\x7bid\x7d" := by
  decide +kernel

end Route

end ServantGen
