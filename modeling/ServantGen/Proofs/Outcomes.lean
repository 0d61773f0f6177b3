import Mathlib.Data.List.Forall2

/-!
# Lists of outcomes

Working through a list stops at the first element that fails. So the error is that of the first
failing element, and without one there is a result for each element.
-/

namespace ServantGen.Outcomes

variable {ε α β : Type}

def error? : Except ε α → Option ε
  | .ok _ => none
  | .error error => some error

@[simp] theorem error?_ok (value : α) : error? (.ok value : Except ε α) = none := rfl

@[simp] theorem error?_error (error : ε) : error? (.error error : Except ε α) = some error := rfl

theorem error?_eq_none_iff {outcome : Except ε α} :
    error? outcome = none ↔ ∃ value, outcome = .ok value := by
  cases outcome <;> simp

theorem error?_eq_some_iff {outcome : Except ε α} {error : ε} :
    error? outcome = some error ↔ outcome = .error error := by
  cases outcome <;> simp

@[simp] theorem error?_map (change : α → β) (outcome : Except ε α) :
    error? (change <$> outcome) = error? outcome := by
  cases outcome <;> rfl

/-- What was found without an error was found before errors were changed. -/
theorem eq_ok_of_mapError_eq_ok {ε' : Type} {change : ε → ε'} {outcome : Except ε α} {value : α}
    (h : outcome.mapError change = .ok value) : outcome = .ok value := by
  cases outcome with
  | error error => simp [Except.mapError] at h
  | ok own => simpa [Except.mapError] using h

theorem exists_of_map_eq_ok {change : α → β} {outcome : Except ε α} {result : β}
    (h : change <$> outcome = .ok result) :
    ∃ value, outcome = .ok value ∧ change value = result := by
  cases outcome with
  | error error => simp at h
  | ok value => exact ⟨value, rfl, Except.ok.inj h⟩

theorem exists_map_eq_ok_iff {change : α → β} {outcome : Except ε α} :
    (∃ result, change <$> outcome = .ok result) ↔ ∃ value, outcome = .ok value := by
  rw [← error?_eq_none_iff, error?_map, error?_eq_none_iff]

theorem toOption_eq_some_iff {outcome : Except ε α} {value : α} :
    outcome.toOption = some value ↔ outcome = .ok value := by
  cases outcome <;> simp [Except.toOption]

theorem mapM_cons (f : α → Except ε β) (x : α) (xs : List α) :
    (x :: xs).mapM f =
      match f x with
      | .error error => .error error
      | .ok y => (y :: ·) <$> xs.mapM f := by
  rw [List.mapM_cons]
  cases f x with
  | error error => rfl
  | ok y => cases xs.mapM f <;> rfl

/-- Outcomes that are the same for each element are the same for the list. -/
theorem mapM_congr {f g : α → Except ε β} {xs : List α} (h : ∀ x ∈ xs, f x = g x) :
    xs.mapM f = xs.mapM g := by
  induction xs with
  | nil => rfl
  | cons x xs ih =>
    obtain ⟨hx, hxs⟩ := List.forall_mem_cons.1 h
    rw [mapM_cons, mapM_cons, hx, ih hxs]

/-- The error of a list is that of its first failing element. -/
theorem error?_mapM (f : α → Except ε β) (xs : List α) :
    error? (xs.mapM f) = xs.findSome? fun x => error? (f x) := by
  induction xs with
  | nil => rfl
  | cons x xs ih =>
    rw [mapM_cons, List.findSome?_cons]
    cases f x with
    | error error => rfl
    | ok y => rw [error?_map, ih]; rfl

theorem exists_mapM_eq_ok_iff {f : α → Except ε β} {xs : List α} :
    (∃ ys, xs.mapM f = .ok ys) ↔ ∀ x ∈ xs, ∃ y, f x = .ok y := by
  rw [← error?_eq_none_iff, error?_mapM, List.findSome?_eq_none_iff]
  exact forall₂_congr fun x _ => error?_eq_none_iff

/-- Without an error every element has its result. -/
theorem forall₂_of_mapM_eq_ok {f : α → Except ε β} {xs : List α} {ys : List β}
    (h : xs.mapM f = .ok ys) : List.Forall₂ (fun x y => f x = .ok y) xs ys := by
  induction xs generalizing ys with
  | nil =>
    obtain rfl : [] = ys := Except.ok.inj h
    exact .nil
  | cons x xs ih =>
    rw [mapM_cons] at h
    cases hx : f x with
    | error error => simp [hx] at h
    | ok y =>
      cases hxs : xs.mapM f with
      | error error => simp [hx, hxs] at h
      | ok rest =>
        simp only [hx, hxs] at h
        obtain rfl := Except.ok.inj h
        exact .cons hx (ih hxs)

theorem mapM_eq_ok_iff {f : α → Except ε β} {xs : List α} {ys : List β} :
    xs.mapM f = .ok ys ↔ List.Forall₂ (fun x y => f x = .ok y) xs ys := by
  refine ⟨forall₂_of_mapM_eq_ok, fun h => ?_⟩
  induction h with
  | nil => rfl
  | cons hfirst hrest ih => simp only [mapM_cons, hfirst, ih, Except.map_ok]

/-- A list fails with an error when an element does and none before it fails. -/
theorem mapM_eq_error_iff {f : α → Except ε β} {xs : List α} {error : ε} :
    xs.mapM f = .error error ↔
      ∃ before x after, xs = before ++ x :: after ∧ (∀ earlier ∈ before, ∃ y, f earlier = .ok y) ∧
        f x = .error error := by
  rw [← error?_eq_some_iff, error?_mapM, List.findSome?_eq_some_iff]
  simp only [error?_eq_some_iff, error?_eq_none_iff]
  constructor
  · rintro ⟨before, x, after, hxs, hx, hbefore⟩
    exact ⟨before, x, after, hxs, hbefore, hx⟩
  · rintro ⟨before, x, after, hxs, hbefore, hx⟩
    exact ⟨before, x, after, hxs, hx, hbefore⟩

/-- Results correspond when those of each element do. -/
theorem forall₂_of_mapM_eq_ok₂ {f g : α → Except ε β} {r : β → β → Prop} {xs : List α}
    (h : ∀ x ∈ xs, ∀ y z, f x = .ok y → g x = .ok z → r y z) {ys zs : List β}
    (hys : xs.mapM f = .ok ys) (hzs : xs.mapM g = .ok zs) : List.Forall₂ r ys zs := by
  replace hys := forall₂_of_mapM_eq_ok hys
  replace hzs := forall₂_of_mapM_eq_ok hzs
  induction hys generalizing zs with
  | nil => cases hzs with | nil => exact .nil
  | cons hy hys ih =>
    obtain ⟨hx, hxs⟩ := List.forall_mem_cons.1 h
    cases hzs with | cons hz hzs => exact .cons (hx _ _ hy hz) (ih hxs hzs)

theorem exists_of_mem_of_forall₂ {r : α → β → Prop} {xs : List α} {ys : List β}
    (h : List.Forall₂ r xs ys) {y : β} (hy : y ∈ ys) : ∃ x ∈ xs, r x y := by
  induction h with
  | nil => simp at hy
  | cons hhead htail ih =>
    obtain rfl | hy := List.mem_cons.1 hy
    · exact ⟨_, List.mem_cons_self, hhead⟩
    · obtain ⟨x, hx, hr⟩ := ih hy
      exact ⟨x, List.mem_cons_of_mem _ hx, hr⟩

/-- The results of the elements that have one correspond to these elements. -/
theorem forall₂_filterMap {f : α → Option β} {has : α → Bool} {r : α → β → Prop} {xs : List α}
    (hhas : ∀ x ∈ xs, (f x).isSome = has x) (h : ∀ x ∈ xs, ∀ y, f x = some y → r x y) :
    List.Forall₂ r (xs.filter has) (xs.filterMap f) := by
  induction xs with
  | nil => exact .nil
  | cons x xs ih =>
    obtain ⟨hx, hxs⟩ := List.forall_mem_cons.1 hhas
    obtain ⟨hr, hrs⟩ := List.forall_mem_cons.1 h
    cases hy : f x with
    | none => simpa [← hx, hy] using ih hxs hrs
    | some y => simpa [← hx, hy] using ⟨hr y hy, ih hxs hrs⟩

/-- Every result is the result of an element. -/
theorem exists_of_mem_mapM {f : α → Except ε β} {xs : List α} {ys : List β}
    (h : xs.mapM f = .ok ys) {y : β} (hy : y ∈ ys) : ∃ x ∈ xs, f x = .ok y :=
  exists_of_mem_of_forall₂ (forall₂_of_mapM_eq_ok h) hy

/-- What holds of all results holds of the result of each element. -/
theorem forall_mem_mapM_iff {f : α → Except ε β} {xs : List α} {ys : List β} {p : β → Prop}
    (h : xs.mapM f = .ok ys) : (∀ y ∈ ys, p y) ↔ ∀ x ∈ xs, ∀ y, f x = .ok y → p y := by
  have hresults := forall₂_of_mapM_eq_ok h
  clear h
  induction hresults with
  | nil => simp
  | cons hfirst hrest ih =>
    rw [List.forall_mem_cons, List.forall_mem_cons]
    exact and_congr (by simp [hfirst]) ih

end ServantGen.Outcomes
