import Mathlib.Data.List.Nodup
import Mathlib.Data.List.Perm.Subperm
import ServantGen.Naming.Book

/-!
# New identifiers

A claim of a new identifier never hands out one that is held. The only case to think about is a
preferred identifier that is held already: the numbered candidates are all different and there
is one more of them than held and reserved names together, so one of them is free. What a claim does
to the holders and to the first identifiers of raw names is said once for all scopes.
-/

namespace ServantGen

namespace NameScope

theorem numbered_injective (name : String) : Function.Injective (numbered name) := by
  intro m n h
  have hchars : name.toList ++ Nat.toDigits 10 m = name.toList ++ Nat.toDigits 10 n := by
    simpa [numbered, Text.decimal] using congrArg String.toList h
  have hdigits := congrArg (Nat.ofDigitChars 10 · 0) (List.append_cancel_left hchars)
  simpa using hdigits

theorem isTaken_iff {scope : NameScope} {name : String} :
    scope.isTaken name = true ↔ name ∈ scope.owners.keys :=
  Entries.isSome_get?_iff

theorem isTaken_record (scope : NameScope) (raw name other : String) :
    (scope.record raw name).isTaken other = true ↔ other = name ∨ scope.isTaken other = true := by
  rw [isTaken_iff, isTaken_iff]
  exact List.mem_cons

/-- A new holder changes the first name of at most its own raw name. -/
theorem get?_record {scope : NameScope} {raw name other first : String}
    (h : (scope.record raw name).get? other = some first) :
    first = name ∨ scope.get? other = some first := by
  simp only [record, get?] at h
  split at h
  · exact .inr h
  · rw [Entries.get?_append] at h
    obtain h | ⟨-, h⟩ := Option.or_eq_some_iff.1 h
    · exact .inr h
    · simp only [Entries.get?] at h
      split at h
      · exact .inl (Option.some.inj h).symm
      · simp at h

/-- One of the numbered candidates is free. -/
theorem isSome_freshNumber? (scope : NameScope) (reserved : List String) (preferred : String) :
    (scope.freshNumber? reserved preferred).isSome = true := by
  by_contra hnone
  rw [Bool.not_eq_true, Option.isSome_eq_false_iff, Option.isNone_iff_eq_none, freshNumber?,
    List.findSome?_eq_none_iff] at hnone
  let candidates := (List.range (scope.size + reserved.length + 1)).map
    fun i => numbered preferred (i + 2)
  have hnodup : candidates.Nodup := by
    apply List.Nodup.map _ List.nodup_range
    intro i j hij
    have := numbered_injective preferred hij
    omega
  have hsubset : candidates ⊆ scope.owners.keys ++ reserved := by
    intro name hname
    obtain ⟨i, hi, rfl⟩ := List.mem_map.1 hname
    have hheld := hnone i hi
    rw [List.mem_append, ← isTaken_iff]
    by_contra hfree
    rw [not_or] at hfree
    simp [isFree, hfree.1, hfree.2] at hheld
  have hlength := (hnodup.subperm hsubset).length_le
  simp only [candidates, Entries.keys, size, List.length_map, List.length_range,
    List.length_append] at hlength
  omega

/-- The number of a new identifier makes it free. -/
theorem isFree_of_freshNumber?_eq_some {scope : NameScope} {reserved : List String}
    {preferred : String} {n : Nat} (h : scope.freshNumber? reserved preferred = some n) :
    scope.isFree reserved (numbered preferred n) = true := by
  obtain ⟨i, -, hi⟩ := List.exists_of_findSome?_eq_some h
  split at hi
  · rename_i hfree
    obtain rfl := Option.some.inj hi
    exact hfree
  · simp at hi

/-- No smaller number makes a free identifier, and the number is at most two above that of the held
and the reserved names. -/
theorem bounds_of_freshNumber?_eq_some {scope : NameScope} {reserved : List String}
    {preferred : String} {n : Nat} (h : scope.freshNumber? reserved preferred = some n) :
    2 ≤ n ∧ n ≤ scope.size + reserved.length + 2 ∧
      ∀ m, 2 ≤ m → scope.isFree reserved (numbered preferred m) = true → n ≤ m := by
  obtain ⟨before, i, behind, hrange, hi, hbefore⟩ := List.findSome?_eq_some_iff.1 h
  have hfound : i + 2 = n := by
    split at hi
    · exact Option.some.inj hi
    · simp at hi
  have hbound : i < scope.size + reserved.length + 1 := by
    rw [← List.mem_range, hrange]
    simp
  refine ⟨by omega, by omega, fun m hm hfree => ?_⟩
  by_contra hless
  have hmem : m - 2 ∈ List.range (scope.size + reserved.length + 1) := by
    rw [List.mem_range]
    omega
  rw [hrange, List.mem_append, List.mem_cons] at hmem
  have hincreasing : (before ++ i :: behind).Pairwise (· < ·) := hrange ▸ List.pairwise_lt_range
  obtain hmem | heq | hmem := hmem
  · have hheld := hbefore _ hmem
    rw [Nat.sub_add_cancel hm, if_pos hfree] at hheld
    simp at hheld
  · omega
  · have hlater := (List.pairwise_append.1 hincreasing).2.1
    have := (List.pairwise_cons.1 hlater).1 _ hmem
    omega

theorem isFree_alternative (scope : NameScope) (reserved : List String) (preferred : String) :
    scope.isFree reserved (scope.alternative reserved preferred) = true := by
  obtain ⟨n, hn⟩ := Option.isSome_iff_exists.1 (scope.isSome_freshNumber? reserved preferred)
  simp only [alternative, hn]
  exact isFree_of_freshNumber?_eq_some hn

/-- A claim of a new identifier records the identifier it answers. -/
theorem claimFresh_snd (scope : NameScope) (reserved : List String) (raw preferred : String) :
    (scope.claimFresh reserved raw preferred).2 =
      scope.record raw (scope.claimFresh reserved raw preferred).1.name := by
  unfold claimFresh
  split <;> rfl

/-- A claim of a new identifier answers one that nobody holds. -/
theorem isTaken_claimFresh_name (scope : NameScope) (reserved : List String)
    (raw preferred : String) :
    scope.isTaken (scope.claimFresh reserved raw preferred).1.name = false := by
  unfold claimFresh
  split
  · rename_i hnone
    simp [isTaken, hnone]
  · have hfree := scope.isFree_alternative reserved preferred
    simp only [isFree, Bool.and_eq_true, Bool.not_eq_true'] at hfree
    exact hfree.1

theorem name_claimFresh_notMem (scope : NameScope) (reserved : List String)
    (raw preferred : String) :
    (scope.claimFresh reserved raw preferred).1.name ∉ scope.owners.keys := by
  rw [← isTaken_iff, scope.isTaken_claimFresh_name reserved raw preferred]
  decide

theorem keys_claimFresh (scope : NameScope) (reserved : List String) (raw preferred : String) :
    (scope.claimFresh reserved raw preferred).2.owners.keys =
      (scope.claimFresh reserved raw preferred).1.name :: scope.owners.keys := by
  rw [claimFresh_snd]
  rfl

/-- A new holder changes nothing for other raw names. -/
theorem get?_record_of_ne (scope : NameScope) {raw other : String} (h : raw ≠ other)
    (name : String) : (scope.record raw name).get? other = scope.get? other := by
  unfold record get?
  dsimp only
  split
  · rfl
  · rw [Entries.get?_append]
    simp [Entries.get?, h]

/-- A raw name without an identifier claims a new one. -/
theorem claim_of_get?_eq_none {scope : NameScope} {raw : String} (h : scope.get? raw = none)
    (reserved : List String) (preferred : String) :
    scope.claim reserved raw preferred = scope.claimFresh reserved raw preferred := by
  simp [claim, h]

/-- A new identifier is the preferred one, or another one with a number behind it and a collision
that says so. -/
theorem claimFresh_cases (scope : NameScope) (reserved : List String) (raw preferred : String) :
    (scope.claimFresh reserved raw preferred).1 = ⟨preferred, none⟩ ∨
      ∃ existing name, name ≠ preferred ∧ (∃ number, name = numbered preferred number) ∧
        (scope.claimFresh reserved raw preferred).1 =
          ⟨name, some ⟨raw, preferred, existing, name⟩⟩ := by
  unfold claimFresh
  split
  · exact .inl rfl
  · rename_i existing howner
    obtain ⟨number, hnumber⟩ :=
      Option.isSome_iff_exists.1 (scope.isSome_freshNumber? reserved preferred)
    refine .inr ⟨existing, scope.alternative reserved preferred, ?_, ⟨number, ?_⟩, rfl⟩
    swap
    · simp only [alternative, hnumber]
    intro heq
    have hfree := scope.isFree_alternative reserved preferred
    rw [heq] at hfree
    simp [isFree, isTaken, howner] at hfree

/-! ## Claims and first names -/

section Claims

variable (scope : NameScope) (reserved : List String) (raw preferred other : String)

/-- A new holder that has no identifier yet has the new one first. -/
theorem get?_record_same (name : String) :
    (scope.record raw name).get? raw = (scope.get? raw).or (some name) := by
  unfold record get?
  dsimp only
  split
  · rename_i hhas
    obtain ⟨first, hfirst⟩ := Option.isSome_iff_exists.1 hhas
    rw [hfirst, Option.some_or]
  · rw [Entries.get?_append]
    simp [Entries.get?]

/-- A claim of a new identifier gives it to a raw name that has none, and changes nothing for
others. -/
theorem get?_claimFresh :
    (scope.claimFresh reserved raw preferred).2.get? other =
      if raw = other then
        (scope.get? raw).or (some (scope.claimFresh reserved raw preferred).1.name)
      else scope.get? other := by
  rw [claimFresh_snd]
  split
  · rename_i heq
    subst heq
    exact scope.get?_record_same raw _
  · rename_i hne
    exact scope.get?_record_of_ne hne _

/-- After a claim the raw name has the identifier that it was answered. -/
theorem get?_claim :
    (scope.claim reserved raw preferred).2.get? other =
      if raw = other then some (scope.claim reserved raw preferred).1.name
      else scope.get? other := by
  cases hraw : scope.get? raw with
  | none => rw [claim_of_get?_eq_none hraw, get?_claimFresh, hraw, Option.none_or]
  | some first =>
    rw [claim_of_get?_eq_some hraw]
    split
    · rename_i heq
      rw [← heq, hraw]
    · rfl

/-- A new identifier that is not the preferred one is not reserved. -/
theorem name_claimFresh_eq_or_notMem :
    (scope.claimFresh reserved raw preferred).1.name = preferred ∨
      (scope.claimFresh reserved raw preferred).1.name ∉ reserved := by
  unfold claimFresh
  split
  · exact .inl rfl
  · have hfree := scope.isFree_alternative reserved preferred
    simp only [isFree, Bool.and_eq_true, Bool.not_eq_true', List.contains_eq_mem,
      decide_eq_false_iff_not] at hfree
    exact .inr hfree.2

end Claims

end NameScope

end ServantGen
