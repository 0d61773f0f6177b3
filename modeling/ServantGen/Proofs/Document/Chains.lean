import ServantGen.Document.Reading

/-!
# Chains of references

A chain of references is followed hop by hop. A node is looked at before each hop and not behind
the last hop that is allowed. So a chain is followed to its end exactly when fewer hops than the
limit lead there; otherwise the error names the reference that leads nowhere, or the one that
stands behind the last hop. A chain that ends just as many hops away as the limit is given up at
its very end: there is no reference left to be named, and the error names none.
-/

namespace ServantGen

namespace Pointer

variable {tree : Json} {site next target : Site} {reference : String} {hops limit : Nat}

/-- The site that a number of references in a row leads to. -/
def reached? (tree : Json) : Nat → Site → Option Site
  | 0, site => some site
  | hops + 1, site => do
    let reference ← site.reference?
    let next ← find? tree reference
    reached? tree hops next

/-- A number of references in a row leads to a node that is none. -/
def EndsAt (tree : Json) (hops : Nat) (site target : Site) : Prop :=
  reached? tree hops site = some target ∧ target.reference? = none

/-- A number of references in a row leads to one that leads nowhere. -/
def BreaksAt (tree : Json) (hops : Nat) (site : Site) (reference : String) : Prop :=
  ∃ last, reached? tree hops site = some last ∧ last.reference? = some reference ∧
    find? tree reference = none

theorem reached?_succ (hreference : site.reference? = some reference)
    (hfind : find? tree reference = some next) (hops : Nat) :
    reached? tree (hops + 1) site = reached? tree hops next := by
  simp [reached?, hreference, hfind]

/-- No hop starts at a node that is no reference. -/
theorem reached?_succ_of_end (h : site.reference? = none) (hops : Nat) :
    reached? tree (hops + 1) site = none := by
  simp [reached?, h]

/-- No hop starts at a reference that leads nowhere. -/
theorem reached?_succ_of_break (hreference : site.reference? = some reference)
    (hfind : find? tree reference = none) (hops : Nat) :
    reached? tree (hops + 1) site = none := by
  simp [reached?, hreference, hfind]

/-- Whether a chain has an end so many hops away is seen from the site reached by then. -/
theorem exists_endsAt_iff :
    (∃ target, EndsAt tree hops site target) ↔
      (reached? tree hops site).map Site.reference? = some none := by
  simp [EndsAt]

/-- A chain ends at its start exactly when that is no reference. -/
theorem endsAt_zero : EndsAt tree 0 site target ↔ site.reference? = none ∧ site = target := by
  rw [EndsAt, reached?, Option.some.injEq]
  constructor
  · rintro ⟨rfl, hend⟩
    exact ⟨hend, rfl⟩
  · rintro ⟨hend, rfl⟩
    exact ⟨rfl, hend⟩

theorem endsAt_succ (hreference : site.reference? = some reference)
    (hfind : find? tree reference = some next) :
    EndsAt tree (hops + 1) site target ↔ EndsAt tree hops next target := by
  rw [EndsAt, EndsAt, reached?_succ hreference hfind]

/-- A chain breaks at its start exactly when that is a reference that leads nowhere. -/
theorem breaksAt_zero :
    BreaksAt tree 0 site reference ↔
      site.reference? = some reference ∧ find? tree reference = none := by
  simp [BreaksAt, reached?]

theorem breaksAt_succ {own : String} (hreference : site.reference? = some own)
    (hfind : find? tree own = some next) :
    BreaksAt tree (hops + 1) site reference ↔ BreaksAt tree hops next reference := by
  simp only [BreaksAt, reached?_succ hreference hfind]

/-- A chain is followed to its end exactly when the end is fewer hops away than the limit. -/
theorem follow_eq_ok_iff :
    follow tree limit site = .ok target ↔ ∃ hops, hops < limit ∧ EndsAt tree hops site target := by
  induction limit generalizing site with
  | zero => simp [follow]
  | succ limit ih =>
    rw [follow, Nat.exists_lt_succ_left, endsAt_zero]
    cases hreference : site.reference? with
    | none => simp [EndsAt, reached?_succ_of_end hreference]
    | some reference =>
      cases hfind : find? tree reference with
      | none => simp [EndsAt, reached?_succ_of_break hreference hfind, hfind]
      | some next => simp [endsAt_succ hreference hfind, ih, hfind]

/-- Following a chain stops with a reference exactly when this is the one that leads nowhere, or
the one, if there is any, behind the last hop. -/
theorem follow_eq_error_iff :
    follow tree limit site = .error reference ↔
      (∃ hops, hops < limit ∧ BreaksAt tree hops site reference) ∨
        ∃ last, reached? tree limit site = some last ∧ last.reference?.getD "" = reference := by
  induction limit generalizing site with
  | zero => simp [follow, reached?]
  | succ limit ih =>
    rw [follow, Nat.exists_lt_succ_left, breaksAt_zero]
    cases hown : site.reference? with
    | none => simp [BreaksAt, reached?_succ_of_end hown]
    | some own =>
      cases hfind : find? tree own with
      | none =>
        have hbreak : own = reference ↔ own = reference ∧ find? tree reference = none :=
          ⟨fun h => ⟨h, h ▸ hfind⟩, And.left⟩
        simp [BreaksAt, reached?_succ_of_break hown hfind, hfind, ← hbreak]
      | some next =>
        have hstart : ¬ (own = reference ∧ find? tree reference = none) := by
          rintro ⟨rfl, hnone⟩
          exact nomatch hfind.symm.trans hnone
        simp only [Option.some.injEq, hstart, breaksAt_succ hown hfind, ih, false_or, hfind,
          reached?_succ hown hfind]

end Pointer

namespace Document

open Pointer (reached? EndsAt BreaksAt maxHops)

variable {document : Document} {site target : Site}

theorem resolve_eq_ok_iff :
    document.resolve site = .ok target ↔
      ∃ hops, hops < maxHops ∧ EndsAt document.tree hops site target := by
  rw [← Pointer.follow_eq_ok_iff, resolve, Pointer.resolve]
  cases Pointer.follow document.tree maxHops site <;> simp

theorem resolve_eq_error_iff {error : ReadError} :
    document.resolve site = .error error ↔ ∃ reference, error = .unresolved reference ∧
      ((∃ hops, hops < maxHops ∧ BreaksAt document.tree hops site reference) ∨
        ∃ last, reached? document.tree maxHops site = some last ∧
          last.reference?.getD "" = reference) := by
  simp only [← Pointer.follow_eq_error_iff]
  rw [resolve, Pointer.resolve]
  cases Pointer.follow document.tree maxHops site with
  | ok found => simp
  | error reference => simp [eq_comm]

/-- The chain from a site is followed to its end when no more hops than the limit lead there, and
otherwise the error names a reference that stands on the chain. -/
structure FollowsUpTo (document : Document) (limit : Nat) (site : Site) : Prop where
  resolved : ∀ target, document.resolve site = .ok target ↔
    ∃ hops, hops ≤ limit ∧ EndsAt document.tree hops site target
  unresolved : ∀ error, document.resolve site = .error error →
    ∃ reference hops last, error = .unresolved reference ∧ hops ≤ limit ∧
      reached? document.tree hops site = some last ∧ last.reference? = some reference

/-- A chain whose end is as many hops away as the limit is given up without a reference. -/
theorem resolve_of_endsAt (h : EndsAt document.tree maxHops site target) :
    document.resolve site = .error (.unresolved "") := by
  obtain ⟨hreached, hend⟩ := h
  exact resolve_eq_error_iff.2 ⟨"", rfl, .inr ⟨target, hreached, by simp [hend]⟩⟩

theorem not_followsUpTo_of_endsAt (h : EndsAt document.tree maxHops site target) :
    ¬ document.FollowsUpTo maxHops site := by
  intro hfollows
  have hok := (hfollows.resolved target).2 ⟨maxHops, Nat.le_refl _, h⟩
  exact nomatch hok.symm.trans (resolve_of_endsAt h)

/-- A chain is followed as far as the limit says unless its end is exactly that far away. It is
followed to its end when that is fewer hops away. In every other case it is not resolved, and what
the error names is the reference that leads nowhere, or else the one behind the last hop, or
nothing when the chain ends there. -/
theorem followsUpTo_maxHops_iff (document : Document) (site : Site) :
    (document.FollowsUpTo maxHops site ↔ ∀ target, ¬ EndsAt document.tree maxHops site target) ∧
    (∀ target, document.resolve site = .ok target ↔
      ∃ hops, hops < maxHops ∧ EndsAt document.tree hops site target) ∧
    ∀ error, document.resolve site = .error error ↔ ∃ reference, error = .unresolved reference ∧
      ((∃ hops, hops < maxHops ∧ BreaksAt document.tree hops site reference) ∨
        ∃ last, reached? document.tree maxHops site = some last ∧
          last.reference?.getD "" = reference) := by
  refine ⟨⟨fun h target hend => not_followsUpTo_of_endsAt hend h,
    fun hnot => ⟨fun target => ?_, fun error herror => ?_⟩⟩,
    fun _ => resolve_eq_ok_iff, fun _ => resolve_eq_error_iff⟩
  · rw [resolve_eq_ok_iff]
    constructor
    · rintro ⟨hops, hless, hend⟩
      exact ⟨hops, Nat.le_of_lt hless, hend⟩
    · rintro ⟨hops, hle, hend⟩
      refine ⟨hops, Nat.lt_of_le_of_ne hle ?_, hend⟩
      rintro rfl
      exact hnot target hend
  · obtain ⟨reference, rfl, ⟨hops, hless, last, hlast, hreference, -⟩ | ⟨last, hlast, hname⟩⟩ :=
      resolve_eq_error_iff.1 herror
    · exact ⟨reference, hops, last, rfl, Nat.le_of_lt hless, hlast, hreference⟩
    · cases hreference : last.reference? with
      | none => exact absurd ⟨hlast, hreference⟩ (hnot last)
      | some own =>
        obtain rfl : own = reference := by simpa [hreference] using hname
        exact ⟨own, maxHops, last, rfl, Nat.le_refl _, hlast, hreference⟩

/-- Thirty-two references in a row lead to a node that is none; the chain is given up there, and
the error names nothing. -/
theorem not_followsUpTo_of_longest_chain :
    let name (position : Nat) : String := String.ofList (Nat.toDigits 10 position)
    let link (position : Nat) : Json := .object [("$ref", .string ("#/" ++ name position))]
    let tree : Json := .object
      (((List.range 31).map fun position => (name position, link (position + 1))) ++
        [("31", .object []), ("info", .object []), ("paths", .object [])])
    let document : Document := ⟨tree, []⟩
    let site : Site := ⟨[.key "start"], link 0⟩
    Document.ofTree tree = .ok document ∧ (∃ target, EndsAt tree maxHops site target) ∧
      document.resolve site = .error (.unresolved "") ∧ ¬ document.FollowsUpTo maxHops site := by
  intro name link tree document site
  have hend : ∃ target, EndsAt document.tree maxHops site target :=
    Pointer.exists_endsAt_iff.2 (by decide +kernel)
  obtain ⟨target, htarget⟩ := hend
  exact ⟨rfl, ⟨target, htarget⟩, resolve_of_endsAt htarget, not_followsUpTo_of_endsAt htarget⟩

end Document

end ServantGen
