import Mathlib.Data.List.Induction
import Mathlib.Data.Set.Card
import Mathlib.Order.Bounds.Defs
import ServantGen.Proofs.Naming.Fresh

/-!
# Histories of a scope

A scope is asked for identifiers by one call after the other. What it holds is told by the calls
alone: the first name of a raw name is what the first call for it was answered, and a name is held
by the raw name of the call that it was assigned to. Both are shown call by call; that names stay
apart follows, since an assigned name is held by nobody before and by its owner ever after.
-/

namespace ServantGen

structure NameCall where
  /-- Whether a new identifier is asked for, also for a raw name that has one. -/
  isFresh : Bool
  /-- The names that nobody is to be renamed to. -/
  reserved : List String
  raw : String
  preferred : String

namespace NameScope

def perform (scope : NameScope) (call : NameCall) : Identifier × NameScope :=
  if call.isFresh then scope.claimFresh call.reserved call.raw call.preferred
  else scope.claim call.reserved call.raw call.preferred

def after (calls : List NameCall) : NameScope :=
  calls.foldl (fun scope call => (scope.perform call).2) empty

def answer (earlier : List NameCall) (call : NameCall) : Identifier :=
  ((after earlier).perform call).1

theorem after_append_singleton (earlier : List NameCall) (call : NameCall) :
    after (earlier ++ [call]) = ((after earlier).perform call).2 := by
  simp [after]

end NameScope

open NameScope (after answer numbered)

/-! ## What happened -/

/-- A call that behind those before it was as told. -/
def Happened (told : List NameCall → NameCall → Prop) (calls : List NameCall) : Prop :=
  ∃ earlier call later, calls = earlier ++ call :: later ∧ told earlier call

section Happened

variable {told : List NameCall → NameCall → Prop} {calls : List NameCall}

theorem not_happened_nil : ¬ Happened told [] := by
  rintro ⟨earlier, call, later, heq, -⟩
  simp at heq

theorem Happened.append (h : Happened told calls) (more : List NameCall) :
    Happened told (calls ++ more) := by
  obtain ⟨earlier, call, later, rfl, htold⟩ := h
  exact ⟨earlier, call, later ++ more, by simp, htold⟩

theorem happened_append_singleton {last : NameCall} :
    Happened told (calls ++ [last]) ↔ Happened told calls ∨ told calls last := by
  constructor
  · rintro ⟨earlier, call, later, heq, htold⟩
    rcases List.eq_nil_or_concat later with rfl | ⟨before, final, rfl⟩
    · obtain ⟨rfl, hlast⟩ := List.append_inj' heq rfl
      obtain rfl := List.singleton_inj.1 hlast
      exact .inr htold
    · rw [List.concat_eq_append, ← List.cons_append, ← List.append_assoc] at heq
      obtain ⟨rfl, -⟩ := List.append_inj' heq rfl
      exact .inl ⟨earlier, call, before, rfl, htold⟩
  · rintro (h | htold)
    · exact h.append [last]
    · exact ⟨calls, last, [], rfl, htold⟩

theorem Happened.mono {told' : List NameCall → NameCall → Prop} (h : Happened told calls)
    (himp : ∀ earlier call, told earlier call → told' earlier call) : Happened told' calls := by
  obtain ⟨earlier, call, later, heq, htold⟩ := h
  exact ⟨earlier, call, later, heq, himp earlier call htold⟩

end Happened

/-- A call gets an identifier of its own: it asks for a new one, or its raw name was not seen
before. -/
def NameCall.Assigns (earlier : List NameCall) (call : NameCall) : Prop :=
  call.isFresh = true ∨ ∀ other ∈ earlier, other.raw ≠ call.raw

/-- Some call was answered with a name. -/
def Answered (calls : List NameCall) (name : String) : Prop :=
  Happened (fun earlier call => (answer earlier call).name = name) calls

/-- The first call for a raw name was answered with a name. -/
def FirstAnswered (calls : List NameCall) (raw name : String) : Prop :=
  Happened (fun earlier call => (∀ other ∈ earlier, other.raw ≠ raw) ∧ call.raw = raw ∧
    (answer earlier call).name = name) calls

/-- A name was assigned to a call for a raw name. -/
def Owns (calls : List NameCall) (raw name : String) : Prop :=
  Happened (fun earlier call => call.Assigns earlier ∧ call.raw = raw ∧
    (answer earlier call).name = name) calls

theorem FirstAnswered.owns {calls : List NameCall} {raw name : String}
    (h : FirstAnswered calls raw name) : Owns calls raw name := by
  refine Happened.mono h ?_
  rintro earlier call ⟨hnew, rfl, hname⟩
  exact ⟨.inr hnew, rfl, hname⟩

theorem Owns.answered {calls : List NameCall} {raw name : String} (h : Owns calls raw name) :
    Answered calls name :=
  Happened.mono h fun _ _ htold => htold.2.2

/-! ## One call -/

namespace NameScope

section Perform

variable (scope : NameScope) {call : NameCall}

theorem perform_eq_claimFresh (h : call.isFresh = true ∨ scope.get? call.raw = none) :
    scope.perform call = scope.claimFresh call.reserved call.raw call.preferred := by
  rw [perform]
  split
  · rfl
  · rename_i hfresh
    exact claim_of_get?_eq_none (h.resolve_left hfresh) _ _

theorem perform_of_get?_eq_some {name : String} (hfresh : ¬ call.isFresh = true)
    (h : scope.get? call.raw = some name) : scope.perform call = (⟨name, none⟩, scope) := by
  rw [perform, if_neg hfresh, claim_of_get?_eq_some h]

/-- A raw name keeps the identifier that it has, and one that has none has the one that it is
answered. -/
theorem get?_perform (call : NameCall) (other : String) :
    (scope.perform call).2.get? other =
      if call.raw = other then (scope.get? call.raw).or (some (scope.perform call).1.name)
      else scope.get? other := by
  rw [perform]
  split
  · exact scope.get?_claimFresh _ _ _ _
  · rw [get?_claim]
    cases hraw : scope.get? call.raw with
    | none => rfl
    | some first => rw [claim_of_get?_eq_some hraw, Option.some_or]

/-- The owner of an assigned name is the raw name of the call, and all other owners stay. -/
theorem owner?_perform (h : call.isFresh = true ∨ scope.get? call.raw = none) (other : String) :
    (scope.perform call).2.owner? other =
      if (scope.perform call).1.name = other then some call.raw else scope.owner? other := by
  rw [perform_eq_claimFresh scope h, claimFresh_snd]
  split
  · rename_i heq
    rw [heq, owner?_record_same]
  · rename_i hne
    exact owner?_record_of_ne _ _ hne

end Perform

/-! ## All calls -/

variable {calls : List NameCall} {call : NameCall} {raw name : String}

theorem get?_after_eq_none_iff :
    (after calls).get? raw = none ↔ ∀ call ∈ calls, call.raw ≠ raw := by
  induction calls using List.reverseRecOn with
  | nil => simp [after, empty, get?, Entries.get?]
  | append_singleton calls last ih =>
    rw [after_append_singleton, get?_perform, List.forall_mem_append, List.forall_mem_singleton]
    split
    · rename_i heq
      simp [heq]
    · rename_i hne
      simp [ih, hne]

/-- A call gets an identifier of its own when the scope has to find one. -/
theorem assigns_iff :
    call.Assigns calls ↔ call.isFresh = true ∨ (after calls).get? call.raw = none := by
  rw [NameCall.Assigns, get?_after_eq_none_iff]

theorem get?_after_eq_some_iff :
    (after calls).get? raw = some name ↔ FirstAnswered calls raw name := by
  induction calls using List.reverseRecOn with
  | nil =>
    have hnone : ¬ FirstAnswered [] raw name := not_happened_nil
    simpa [after, empty, get?, Entries.get?] using hnone
  | append_singleton calls last ih =>
    rw [after_append_singleton, get?_perform, FirstAnswered, happened_append_singleton,
      ← FirstAnswered, ← ih, ← get?_after_eq_none_iff]
    split
    · rename_i heq
      subst heq
      rw [Option.or_eq_some_iff]
      simp [answer]
    · rename_i hne
      simp [hne]

/-- A call that gets no identifier of its own is answered with the first one of its raw name. -/
theorem perform_of_not_assigns (h : ¬ call.Assigns calls) :
    ∃ name, FirstAnswered calls call.raw name ∧
      (after calls).perform call = (⟨name, none⟩, after calls) := by
  rw [assigns_iff, not_or, ← ne_eq, ← ne_eq, Option.ne_none_iff_exists'] at h
  obtain ⟨hfresh, name, hname⟩ := h
  exact ⟨name, get?_after_eq_some_iff.1 hname, perform_of_get?_eq_some _ hfresh hname⟩

theorem answer_of_assigns (h : call.Assigns calls) :
    answer calls call =
      ((after calls).claimFresh call.reserved call.raw call.preferred).1 := by
  rw [answer, perform_eq_claimFresh _ (assigns_iff.1 h)]

/-- Nobody holds a name that is assigned. -/
theorem owner?_answer (h : call.Assigns calls) :
    (after calls).owner? (answer calls call).name = none := by
  have hfree := (after calls).isTaken_claimFresh_name call.reserved call.raw call.preferred
  rw [← answer_of_assigns h] at hfree
  simpa [isTaken] using hfree

theorem owner?_after_eq_some_iff :
    (after calls).owner? name = some raw ↔ Owns calls raw name := by
  induction calls using List.reverseRecOn with
  | nil =>
    have hnone : ¬ Owns [] raw name := not_happened_nil
    simpa [after, empty, owner?, Entries.get?] using hnone
  | append_singleton calls last ih =>
    rw [after_append_singleton, Owns, happened_append_singleton, ← Owns, ← ih]
    by_cases hassigns : last.Assigns calls
    · rw [owner?_perform _ (assigns_iff.1 hassigns)]
      have hnone := owner?_answer hassigns
      split
      · rename_i heq
        subst heq
        rw [answer] at hnone
        simp [hnone, hassigns, answer]
      · rename_i hne
        simp [hne, answer]
    · obtain ⟨first, -, hperform⟩ := perform_of_not_assigns hassigns
      simp [hperform, hassigns]

/-- What a call is answered with is held by a raw name. -/
theorem exists_owns_of_answered (h : Answered calls name) : ∃ raw, Owns calls raw name := by
  obtain ⟨earlier, call, later, rfl, hname⟩ := h
  by_cases hassigns : call.Assigns earlier
  · exact ⟨call.raw, earlier, call, later, rfl, hassigns, rfl, hname⟩
  · obtain ⟨first, hfirst, hperform⟩ := perform_of_not_assigns hassigns
    obtain rfl : first = name := by rw [← hname, answer, hperform]
    exact ⟨call.raw, hfirst.owns.append (call :: later)⟩

theorem isTaken_after_iff : (after calls).isTaken name = true ↔ Answered calls name := by
  rw [isTaken, Option.isSome_iff_exists]
  simp only [owner?_after_eq_some_iff]
  constructor
  · rintro ⟨raw, howns⟩
    exact howns.answered
  · exact exists_owns_of_answered

theorem nodup_keys_after (calls : List NameCall) : (after calls).owners.keys.Nodup := by
  induction calls using List.reverseRecOn with
  | nil => exact List.nodup_nil
  | append_singleton calls last ih =>
    rw [after_append_singleton]
    by_cases hassigns : last.Assigns calls
    · rw [perform_eq_claimFresh _ (assigns_iff.1 hassigns), keys_claimFresh]
      exact List.nodup_cons.2 ⟨name_claimFresh_notMem _ _ _ _, ih⟩
    · obtain ⟨first, -, hperform⟩ := perform_of_not_assigns hassigns
      rwa [hperform]

/-- As many names are held as there are different answers. -/
theorem size_after (calls : List NameCall) :
    (after calls).size = {name | Answered calls name}.ncard := by
  have hkeys :
      {name | Answered calls name} = ((after calls).owners.keys.toFinset : Set String) := by
    ext name
    rw [Set.mem_ofPred_eq, ← isTaken_after_iff, isTaken_iff]
    simp
  rw [hkeys, Set.ncard_coe_finset, List.toFinset_card_of_nodup (nodup_keys_after calls),
    Entries.keys, List.length_map, size]

/-! ## Answers -/

/-- A call that gets an identifier of its own is answered with a name that nobody was answered
with before: the preferred one if that is such a name, without a collision, and else the preferred
one with a number behind it, with a collision that names the owner. The number is the least one from
two on that makes a name which is neither taken nor reserved. -/
structure IsAssigned (earlier : List NameCall) (call : NameCall) (identifier : Identifier) :
    Prop where
  new : ¬ Answered earlier identifier.name
  preferred : ¬ Answered earlier call.preferred → identifier = ⟨call.preferred, none⟩
  renamed : ∀ existing, Owns earlier existing call.preferred →
    identifier.collision = some ⟨call.raw, call.preferred, existing, identifier.name⟩ ∧
    ∃ number, identifier.name = numbered call.preferred number ∧
      IsLeast {m | 2 ≤ m ∧ ¬ Answered earlier (numbered call.preferred m) ∧
        numbered call.preferred m ∉ call.reserved} number

theorem isFree_after_iff {reserved : List String} :
    (after calls).isFree reserved name = true ↔ ¬ Answered calls name ∧ name ∉ reserved := by
  rw [isFree, ← isTaken_after_iff]
  simp

theorem isAssigned_answer (h : call.Assigns calls) : IsAssigned calls call (answer calls call) where
  new := by
    rw [← isTaken_after_iff, isTaken, owner?_answer h]
    simp
  preferred := by
    intro hfree
    rw [← isTaken_after_iff, isTaken, Option.not_isSome_iff_eq_none] at hfree
    rw [answer_of_assigns h, claimFresh, hfree]
  renamed := by
    intro existing howns
    have howner := owner?_after_eq_some_iff.2 howns
    obtain ⟨number, hnumber⟩ := Option.isSome_iff_exists.1
      ((after calls).isSome_freshNumber? call.reserved call.preferred)
    obtain ⟨htwo, -, hleast⟩ := bounds_of_freshNumber?_eq_some hnumber
    rw [answer_of_assigns h, claimFresh, howner]
    refine ⟨rfl, number, by simp only [alternative, hnumber], ?_, ?_⟩
    · exact ⟨htwo, isFree_after_iff.1 (isFree_of_freshNumber?_eq_some hnumber)⟩
    · rintro m ⟨hm, hfree⟩
      exact hleast m hm (isFree_after_iff.2 hfree)

/-- Whatever calls a scope was asked by, what it holds is told by the calls: the owners of names,
the number of names, and the first name of each raw name, which never changes and is held by this
raw name. The next search for a number ends, within 32 bits where fewer than 2 ^ 32 - 2 names are
held and reserved. A call that gets an identifier of its own has one that differs from all others,
and every other call is answered with the first name of its raw name and changes nothing. -/
theorem scope_follows_calls (calls : List NameCall) :
    (∀ name raw, (after calls).owner? name = some raw ↔ Owns calls raw name) ∧
    (∀ name, (after calls).isTaken name = true ↔ Answered calls name) ∧
    (after calls).size = {name | Answered calls name}.ncard ∧
    (∀ raw name, (after calls).get? raw = some name ↔ FirstAnswered calls raw name) ∧
    (∀ raw name, (after calls).get? raw = some name →
      (after calls).owner? name = some raw ∧
        ∀ later, (after (calls ++ later)).get? raw = some name) ∧
    ∀ call : NameCall,
      (∃ number, (after calls).freshNumber? call.reserved call.preferred = some number ∧
        ((after calls).size + call.reserved.length < 2 ^ 32 - 2 → number < 2 ^ 32)) ∧
      (call.Assigns calls → IsAssigned calls call (answer calls call) ∧
        ∀ later (other : NameCall), other.Assigns (calls ++ call :: later) →
          (answer calls call).name ≠ (answer (calls ++ call :: later) other).name) ∧
      (¬ call.Assigns calls → ∃ name, FirstAnswered calls call.raw name ∧
        (after calls).perform call = (⟨name, none⟩, after calls)) := by
  refine ⟨fun name raw => owner?_after_eq_some_iff, fun name => isTaken_after_iff, size_after calls,
    fun raw name => get?_after_eq_some_iff, fun raw name hname => ?_, fun call => ⟨?_, ?_, ?_⟩⟩
  · have hfirst := get?_after_eq_some_iff.1 hname
    exact ⟨owner?_after_eq_some_iff.2 hfirst.owns,
      fun later => get?_after_eq_some_iff.2 (hfirst.append later)⟩
  · obtain ⟨number, hnumber⟩ := Option.isSome_iff_exists.1
      ((after calls).isSome_freshNumber? call.reserved call.preferred)
    have hbound := (bounds_of_freshNumber?_eq_some hnumber).2.1
    exact ⟨number, hnumber, fun hfew => by omega⟩
  · intro hassigns
    refine ⟨isAssigned_answer hassigns, fun later other hother heq => ?_⟩
    exact (isAssigned_answer hother).new ⟨calls, call, later, rfl, heq⟩
  · exact perform_of_not_assigns

/-- The first numbered name is held by a second raw name and the next one is reserved. -/
theorem scope_follows_calls_renamed :
    let calls : List NameCall := [⟨false, [], "a", "item"⟩, ⟨false, [], "b", "item2"⟩]
    let call : NameCall := ⟨false, ["item3"], "c", "item"⟩
    call.Assigns calls ∧ Owns calls "a" "item" ∧ IsAssigned calls call (answer calls call) ∧
      answer calls call = ⟨"item4", some ⟨"c", "item", "a", "item4"⟩⟩ := by
  intro calls call
  obtain ⟨howner, -, -, -, -, hcall⟩ := scope_follows_calls calls
  have hassigns : call.Assigns calls := assigns_iff.2 (.inr (by decide +kernel))
  exact ⟨hassigns, (howner "item" "a").1 (by decide +kernel), ((hcall call).2.1 hassigns).1,
    by decide +kernel⟩

end NameScope

end ServantGen
