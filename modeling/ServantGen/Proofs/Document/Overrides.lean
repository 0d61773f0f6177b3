import Mathlib.Data.List.Induction
import Mathlib.Data.List.Nodup
import ServantGen.Document.Reading
import ServantGen.Proofs.Outcomes

/-!
# Parameters take the places of earlier ones

The parameters of an operation are those of its path item and then its own, each put in the place
of the one before it that has the same name and location. What is left has each such pair once,
where the pair stood first and as it was declared last.
-/

namespace ServantGen

/-- One more element is new, or it is a repetition. -/
theorem eraseDups_append_singleton {α : Type} [BEq α] [LawfulBEq α] (xs : List α) (x : α) :
    (xs ++ [x]).eraseDups = if x ∈ xs then xs.eraseDups else xs.eraseDups ++ [x] := by
  rw [List.eraseDups_append]
  split
  case isTrue hold => simp [List.removeAll, hold]
  case isFalse hnew => simp [List.removeAll, hnew, List.eraseDups_cons]

theorem nodup_eraseDups {α : Type} [BEq α] [LawfulBEq α] (xs : List α) : xs.eraseDups.Nodup := by
  induction xs using List.reverseRecOn with
  | nil => exact List.nodup_nil
  | append_singleton xs x ih =>
    rw [eraseDups_append_singleton]
    split
    case isTrue => exact ih
    case isFalse hnew =>
      refine ih.append (List.nodup_singleton x) (List.disjoint_singleton.2 ?_)
      exact fun hold => hnew (List.mem_eraseDups.1 hold)

namespace ParameterSite

/-- What parameters are told apart by: the name and the location. -/
def pair (site : Site) : String × String :=
  (name site, location site)

theorem same_iff {left right : Site} : same left right = true ↔ pair left = pair right := by
  simp [same, pair]

variable {site other : Site} {merged : List Site}

/-- A pair keeps its place, and a new one comes last. -/
theorem map_pair_merge (site : Site) (merged : List Site) :
    (merge site merged).map pair =
      if pair site ∈ merged.map pair then merged.map pair else merged.map pair ++ [pair site] := by
  induction merged with
  | nil => simp [merge]
  | cons first rest ih =>
    by_cases hsame : same first site = true
    · have hpair := same_iff.1 hsame
      simp [merge, hsame, hpair]
    · have hpair : pair site ≠ pair first := fun heq => hsame (same_iff.2 heq.symm)
      simp only [merge, hsame, if_false, Bool.false_eq_true, List.map_cons, ih, List.mem_cons,
        hpair, false_or]
      split
      · rfl
      · rfl

/-- Of the parameters with one pair only the last is left. -/
theorem mem_merge_iff (h : (merged.map pair).Nodup) :
    other ∈ merge site merged ↔ other = site ∨ other ∈ merged ∧ pair other ≠ pair site := by
  induction merged with
  | nil => simp [merge]
  | cons first rest ih =>
    obtain ⟨hfirst, hrest⟩ := List.nodup_cons.1 h
    have hapart : ∀ other ∈ rest, pair other ≠ pair first := fun other hother heq =>
      hfirst (heq ▸ List.mem_map_of_mem hother)
    by_cases hsame : same first site = true
    · have hpair := same_iff.1 hsame
      simp only [merge, hsame, if_true, List.mem_cons]
      constructor
      · rintro (rfl | hother)
        · exact .inl rfl
        · exact .inr ⟨.inr hother, hpair ▸ hapart other hother⟩
      · rintro (rfl | ⟨rfl | hother, hne⟩)
        · exact .inl rfl
        · exact absurd hpair hne
        · exact .inr hother
    · have hpair : pair first ≠ pair site := fun heq => hsame (same_iff.2 heq)
      simp only [merge, hsame, if_false, Bool.false_eq_true, List.mem_cons, ih hrest]
      constructor
      · rintro (rfl | rfl | ⟨hother, hne⟩)
        · exact .inr ⟨.inl rfl, hpair⟩
        · exact .inl rfl
        · exact .inr ⟨.inr hother, hne⟩
      · rintro (rfl | ⟨rfl | hother, hne⟩)
        · exact .inr (.inl rfl)
        · exact .inl rfl
        · exact .inr (.inr ⟨hother, hne⟩)

/-- A list in which each pair of another list stands once, where it stood there first, and as it
was declared there last. -/
structure OverridesInOrder (declared merged : List Site) : Prop where
  once : (merged.map pair).Nodup
  order : merged.map pair = (declared.map pair).eraseDups
  last : ∀ site ∈ merged,
    (declared.filter fun other => pair other == pair site).getLast? = some site

variable {declared : List Site}

namespace OverridesInOrder

theorem nil : OverridesInOrder [] [] :=
  ⟨List.nodup_nil, rfl, fun _ hsite => absurd hsite List.not_mem_nil⟩

theorem mem_map_pair_iff (h : OverridesInOrder declared merged) (key : String × String) :
    key ∈ merged.map pair ↔ key ∈ declared.map pair := by
  rw [h.order, List.mem_eraseDups]

theorem of_order (horder : merged.map pair = (declared.map pair).eraseDups)
    (hlast : ∀ site ∈ merged,
      (declared.filter fun other => pair other == pair site).getLast? = some site) :
    OverridesInOrder declared merged :=
  ⟨horder ▸ nodup_eraseDups _, horder, hlast⟩

/-- One more declaration takes the place of the same one, or comes last. -/
theorem merge (h : OverridesInOrder declared merged) (site : Site) :
    OverridesInOrder (declared ++ [site]) (ParameterSite.merge site merged) := by
  refine of_order ?_ fun other hother => ?_
  · rw [map_pair_merge, List.map_append, List.map_singleton, eraseDups_append_singleton, ← h.order]
    exact if_congr (h.mem_map_pair_iff _) rfl rfl
  · rw [List.filter_append, List.getLast?_append]
    obtain rfl | ⟨hother, hne⟩ := (mem_merge_iff h.once).1 hother
    · simp
    · simp [hne.symm, h.last other hother]

/-- There is one such list. -/
theorem unique {others : List Site} (h : OverridesInOrder declared merged)
    (h' : OverridesInOrder declared others) : merged = others := by
  have hform : ∀ {list}, OverridesInOrder declared list → list =
      (declared.map pair).eraseDups.filterMap fun key =>
        (declared.filter fun other => pair other == key).getLast? := by
    intro list hlist
    rw [← hlist.order, List.filterMap_map]
    exact ((List.filterMap_congr hlist.last).trans List.filterMap_some).symm
  rw [hform h, ← hform h']

end OverridesInOrder

/-- Parameters that are merged one after the other override each other in order. -/
theorem overridesInOrder_foldl (declared : List Site) :
    OverridesInOrder declared (declared.foldl (fun merged site => merge site merged) []) := by
  induction declared using List.reverseRecOn with
  | nil => exact .nil
  | append_singleton declared site ih =>
    rw [List.foldl_append]
    exact ih.merge site

end ParameterSite

namespace OperationSite

open ParameterSite

/-- An operation whose parameters all resolve has them in the order of their first declarations,
each as it is declared last. Otherwise its parameters fail like the first one that does. -/
theorem parameters_iff (document : Document) (operation : OperationSite) :
    (∀ merged, operation.parameters document = .ok merged ↔
      ∃ resolved,
        List.Forall₂ (fun site target => document.resolve site = .ok target)
          operation.declaredParameters resolved ∧
        OverridesInOrder resolved merged) ∧
    ∀ error, operation.parameters document = .error error ↔
      ∃ before site after,
        operation.declaredParameters = before ++ site :: after ∧
        (∀ earlier ∈ before, ∃ target, document.resolve earlier = .ok target) ∧
        document.resolve site = .error error := by
  have hmap : operation.parameters document =
      (fun resolved => resolved.foldl (fun merged site => merge site merged) []) <$>
        operation.declaredParameters.mapM document.resolve :=
    bind_pure_comp _ _
  rw [hmap]
  constructor
  · intro merged
    constructor
    · intro h
      obtain ⟨resolved, hresolved, rfl⟩ := Outcomes.exists_of_map_eq_ok h
      exact ⟨resolved, Outcomes.mapM_eq_ok_iff.1 hresolved, overridesInOrder_foldl resolved⟩
    · rintro ⟨resolved, hresolved, hmerged⟩
      rw [Outcomes.mapM_eq_ok_iff.2 hresolved, hmerged.unique (overridesInOrder_foldl resolved)]
      rfl
  · intro error
    rw [← Outcomes.error?_eq_some_iff, Outcomes.error?_map, Outcomes.error?_eq_some_iff]
    exact Outcomes.mapM_eq_error_iff

end OperationSite

end ServantGen
