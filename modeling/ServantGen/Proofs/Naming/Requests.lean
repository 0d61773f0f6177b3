import Mathlib.Data.List.Induction
import Mathlib.Data.Option.Basic
import Mathlib.Logic.Function.Basic
import ServantGen.Haskell.Lexical
import ServantGen.Proofs.Ledger.Books
import ServantGen.Settings

/-!
# Requests for identifiers

Identifiers are asked for in the book of a run and in scopes that an asker keeps. Whatever was asked
for before, the answer is the identifier that a raw name has in a role, or that one with a number
behind it. The role is the one of the request itself, or, when the raw name has an identifier
already and no new one is asked for, of the first request for it in the scope.

An identifier with a number is never reserved. An identifier without one is reserved exactly where
its base is reserved and the escape of the base is reserved too.
-/

namespace ServantGen

/-! ## Requests -/

/-- A scope: that of types, that of functions, or one that an asker keeps under a name. -/
inductive ScopeKey where
  | types
  | functions
  | kept (name : String)
  deriving DecidableEq

inductive NameRequest where
  | type (raw : String)
  | freshType (raw : String)
  | function (raw : String)
  | claimIn (scope raw : String) (role : Role)
  | freshIn (scope raw : String) (role : Role)
  deriving DecidableEq

namespace NameRequest

def raw : NameRequest → String
  | .type raw | .freshType raw | .function raw | .claimIn _ raw _ | .freshIn _ raw _ => raw

/-- What the identifier is to stand for. -/
def role : NameRequest → Role
  | .type _ | .freshType _ => .type
  | .function _ => .function
  | .claimIn _ _ role | .freshIn _ _ role => role

/-- Where the identifier is asked for. -/
def scope : NameRequest → ScopeKey
  | .type _ | .freshType _ => .types
  | .function _ => .functions
  | .claimIn scope _ _ | .freshIn scope _ _ => .kept scope

/-- Whether a new identifier is asked for, also for a raw name that has one. -/
def isFresh : NameRequest → Bool
  | .type _ | .claimIn _ _ _ => false
  | .freshType _ | .function _ | .freshIn _ _ _ => true

def asksFor (key : ScopeKey) (raw : String) (request : NameRequest) : Bool :=
  request.scope == key && request.raw == raw

/-- The request that decides on the answer to a request, given those before it: the first one for
the same raw name in the same scope, or the request itself if there is none or if a new identifier
is asked for. -/
def decider (earlier : List NameRequest) (request : NameRequest) : NameRequest :=
  if request.isFresh then request
  else (earlier.find? (asksFor request.scope request.raw)).getD request

/-- Only a claim in a scope that an asker keeps may be decided on by a request of another role. -/
theorem role_decider {earlier : List NameRequest} {request : NameRequest}
    (h : ∀ key raw role, request ≠ .claimIn key raw role) :
    (request.decider earlier).role = request.role := by
  have htypes : ∀ first : NameRequest, first.scope = .types → first.role = .type := by
    rintro (_ | _) <;> simp [scope, role]
  cases request with
  | type raw =>
    rw [decider, if_neg (by simp [isFresh])]
    cases hfirst : earlier.find? (asksFor _ _) with
    | none => rfl
    | some first =>
      have hasks := List.find?_some hfirst
      simp only [asksFor, Bool.and_eq_true, beq_iff_eq] at hasks
      exact htypes first hasks.1
  | freshType raw => rfl
  | function raw => rfl
  | claimIn key raw role => exact absurd rfl (h key raw role)
  | freshIn key raw role => rfl

end NameRequest

def Target.ask (target : Target) (isFresh : Bool) (scope : NameScope) (raw : String)
    (role : Role) : Identifier × NameScope :=
  if isFresh then target.freshIn scope raw role else target.claimIn scope raw role

/-- The book of a run, and the scopes that askers keep. -/
structure Names where
  book : NameBook
  kept : String → NameScope

namespace Names

def empty : Names := ⟨.empty, fun _ => .empty⟩

def scope (names : Names) : ScopeKey → NameScope
  | .types => names.book.types
  | .functions => names.book.functions
  | .kept name => names.kept name

def answer (target : Target) (names : Names) : NameRequest → Identifier × Names
  | .type raw =>
    let (identifier, book) := names.book.claimType target raw
    (identifier, { names with book })
  | .freshType raw =>
    let (identifier, book) := names.book.freshType target raw
    (identifier, { names with book })
  | .function raw =>
    let (identifier, book) := names.book.freshFunction target raw
    (identifier, { names with book })
  | .claimIn key raw role =>
    let (identifier, scope) := target.claimIn (names.kept key) raw role
    (identifier, { names with kept := Function.update names.kept key scope })
  | .freshIn key raw role =>
    let (identifier, scope) := target.freshIn (names.kept key) raw role
    (identifier, { names with kept := Function.update names.kept key scope })

def after (target : Target) (requests : List NameRequest) : Names :=
  requests.foldl (fun names request => (names.answer target request).2) empty

/-- The identifier that a request is answered with after a sequence of others. -/
def answerAfter (target : Target) (earlier : List NameRequest) (request : NameRequest) : String :=
  ((after target earlier).answer target request).1.name

section Answer

variable (target : Target) (names : Names) (request : NameRequest)

/-- A request is answered by its scope. -/
theorem identifier_answer :
    (names.answer target request).1 =
      (target.ask request.isFresh (names.scope request.scope) request.raw request.role).1 := by
  cases request <;> rfl

/-- A request changes no scope but its own. -/
theorem scope_answer (key : ScopeKey) :
    (names.answer target request).2.scope key =
      if request.scope = key then
        (target.ask request.isFresh (names.scope request.scope) request.raw request.role).2
      else names.scope key := by
  cases request <;> cases key <;>
    simp [answer, scope, NameRequest.scope, NameRequest.isFresh, NameRequest.raw,
      NameRequest.role, Target.ask, NameBook.claimType, NameBook.freshType,
      NameBook.freshFunction, Function.update_apply, eq_comm]

theorem after_append_singleton (earlier : List NameRequest) :
    after target (earlier ++ [request]) = ((after target earlier).answer target request).2 := by
  simp [after]

end Answer

end Names

/-! ## Answers -/

namespace Target

variable {target : Target} {role : Role} {raw : String}

/-- A name that may be handed out for a raw name in a role: its identifier, or that one with a
number behind it, if this is not reserved. -/
structure Grants (target : Target) (role : Role) (raw name : String) : Prop where
  named : name = target.identifier role raw ∨
    ∃ number, name = NameScope.numbered (target.identifier role raw) number
  unreserved : name = target.identifier role raw ∨ target.isReserved name = false

/-- A new identifier may be handed out. -/
theorem grants_freshIn (scope : NameScope) :
    target.Grants role raw (target.freshIn scope raw role).1.name where
  named := by
    unfold freshIn
    obtain heq | ⟨existing, name, -, hnumber, heq⟩ :=
      scope.claimFresh_cases target.reserved raw (target.identifier role raw)
    · exact .inl (by rw [heq])
    · exact .inr (by rwa [heq])
  unreserved := by
    have hname := scope.name_claimFresh_eq_or_notMem target.reserved raw
      (target.identifier role raw)
    exact hname.imp_right fun hnotMem => by simpa [isReserved, freshIn] using hnotMem

/-- Whatever was asked of a scope, a raw name keeps the identifier that it has, and one that has
none has the one it was answered. -/
theorem get?_ask (isFresh : Bool) (scope : NameScope) (other : String) :
    (target.ask isFresh scope raw role).2.get? other =
      if raw = other then
        (scope.get? raw).or (some (target.ask isFresh scope raw role).1.name)
      else scope.get? other := by
  cases isFresh with
  | true => exact scope.get?_claimFresh _ _ _ _
  | false =>
    rw [ask, if_neg Bool.false_ne_true, claimIn, NameScope.get?_claim]
    cases hraw : scope.get? raw with
    | none => rfl
    | some first => rw [NameScope.claim_of_get?_eq_some hraw, Option.some_or]

end Target

namespace Names

variable {target : Target} {earlier : List NameRequest} {names : Names}

/-- What a first request and the identifier that is kept for its raw name have to do with each
other. -/
def KeptFor (target : Target) (raw : String) (first : Option NameRequest)
    (kept : Option String) : Prop :=
  Option.Rel (fun request name => target.Grants request.role raw name) first kept

/-- In every scope a raw name has an identifier if it was asked for, and then it has one that may be
handed out for the role it was first asked for in. -/
def Remembers (target : Target) (earlier : List NameRequest) (names : Names) : Prop :=
  ∀ key raw, KeptFor target raw (earlier.find? (NameRequest.asksFor key raw))
    ((names.scope key).get? raw)

theorem remembers_empty : Remembers target [] empty := by
  intro key raw
  cases key <;> exact .none

/-- The answer to a request may be handed out for the role that decides on it. -/
theorem Remembers.grants (h : Remembers target earlier names) (request : NameRequest) :
    target.Grants (request.decider earlier).role request.raw
      (names.answer target request).1.name := by
  rw [identifier_answer, NameRequest.decider]
  cases hfresh : request.isFresh with
  | true =>
    rw [if_pos rfl]
    exact target.grants_freshIn _
  | false =>
    rw [if_neg Bool.false_ne_true, Target.ask, if_neg Bool.false_ne_true, Target.claimIn]
    have hkept := h request.scope request.raw
    generalize earlier.find? _ = first, hname : (names.scope request.scope).get? request.raw = name
      at hkept
    cases hkept with
    | none =>
      rw [NameScope.claim_of_get?_eq_none hname]
      exact target.grants_freshIn _
    | some hgrants =>
      rw [NameScope.claim_of_get?_eq_some hname]
      exact hgrants

/-- A request is remembered. -/
theorem Remembers.answer (h : Remembers target earlier names) (request : NameRequest) :
    Remembers target (earlier ++ [request]) (names.answer target request).2 := by
  intro key raw
  have hkept := h key raw
  rw [List.find?_append, scope_answer]
  by_cases hasks : request.asksFor key raw = true
  · obtain ⟨hkey, hraw⟩ : request.scope = key ∧ request.raw = raw := by
      simpa [NameRequest.asksFor] using hasks
    subst hkey hraw
    rw [if_pos rfl, Target.get?_ask, if_pos rfl, List.find?_singleton, if_pos hasks,
      ← identifier_answer]
    have hgrants := h.grants request
    rw [NameRequest.decider] at hgrants
    generalize earlier.find? _ = first, (names.scope request.scope).get? request.raw = name
      at hkept hgrants ⊢
    cases hkept with
    | none =>
      rw [Option.getD_none, ite_self] at hgrants
      exact .some hgrants
    | some hgranted => exact .some hgranted
  · have hothers : ((if request.scope = key then
        (target.ask request.isFresh (names.scope request.scope) request.raw request.role).2
        else names.scope key).get? raw) = (names.scope key).get? raw := by
      split
      · rename_i hkey
        subst hkey
        have hraw : request.raw ≠ raw := by
          rintro rfl
          simp [NameRequest.asksFor] at hasks
        rw [Target.get?_ask, if_neg hraw]
      · rfl
    rw [hothers, List.find?_singleton, if_neg hasks, Option.or_none]
    exact hkept

theorem remembers_after (target : Target) (requests : List NameRequest) :
    Remembers target requests (after target requests) := by
  induction requests using List.reverseRecOn with
  | nil => exact remembers_empty
  | append_singleton earlier request ih =>
    rw [after_append_singleton]
    exact ih.answer request

end Names

/-! ## Reserved words -/

namespace Target

variable {target : Target} {role : Role} {raw name : String}

/-- The base of a raw name in a role is reserved, and so is its escape. -/
structure EscapesToReserved (target : Target) (role : Role) (raw : String) : Prop where
  base : target.isReserved (target.convention.base role raw) = true
  escape : target.isReserved (target.convention.escape (target.convention.base role raw)) = true

/-- An identifier is reserved only as an escape. -/
theorem isReserved_identifier_iff :
    target.isReserved (target.identifier role raw) = true ↔ target.EscapesToReserved role raw := by
  unfold identifier
  dsimp only
  split
  · rename_i hbase
    exact ⟨fun hescape => ⟨hbase, hescape⟩, fun h => h.escape⟩
  · rename_i hbase
    exact ⟨fun h => absurd h hbase, fun h => absurd h.base hbase⟩

/-- No identifier is reserved where no escape of a reserved word is. -/
theorem not_escapesToReserved
    (h : ∀ word ∈ target.reserved, target.convention.escape word ∉ target.reserved) :
    ¬ target.EscapesToReserved role raw := by
  rintro ⟨hbase, hescape⟩
  exact h _ (List.contains_iff_mem.1 hbase) (List.contains_iff_mem.1 hescape)

/-- Of the names that may be handed out only the identifier itself can be reserved. -/
theorem Grants.isReserved_iff (h : target.Grants role raw name) :
    target.isReserved name = true ↔
      name = target.identifier role raw ∧ target.EscapesToReserved role raw := by
  constructor
  · intro hreserved
    obtain rfl | hfree := h.unreserved
    · exact ⟨rfl, isReserved_identifier_iff.1 hreserved⟩
    · exact absurd (hfree.symm.trans hreserved) Bool.false_ne_true
  · rintro ⟨rfl, hescapes⟩
    exact isReserved_identifier_iff.2 hescapes

end Target

namespace Names

/-- Whatever is asked for, and after whatever requests, a reserved name is handed out only as the
escape of a reserved word which is itself reserved; and where a target has such a word that is the
base of a raw name, a request for this name is answered with its escape. -/
theorem isReserved_answer_iff (target : Target) :
    (∀ role raw, target.isReserved (target.identifier role raw) = true ↔
      target.EscapesToReserved role raw) ∧
    (∀ earlier request,
      target.isReserved (answerAfter target earlier request) = true ↔
        answerAfter target earlier request =
            target.identifier (request.decider earlier).role request.raw ∧
          target.EscapesToReserved (request.decider earlier).role request.raw) ∧
    ((∀ earlier request, target.isReserved (answerAfter target earlier request) = false) ↔
      ∀ role raw, ¬ target.EscapesToReserved role raw) := by
  have hanswer := fun earlier request =>
    ((remembers_after target earlier).grants request).isReserved_iff
  refine ⟨fun role raw => Target.isReserved_identifier_iff, hanswer, ?_, ?_⟩
  · intro hfree role raw hescapes
    -- In a scope of its own a raw name has the identifier that it asks for.
    have hfirst : answerAfter target [] (.claimIn "" raw role) = target.identifier role raw := rfl
    have hreserved := Target.isReserved_identifier_iff.2 hescapes
    rw [← hfirst, hfree] at hreserved
    exact Bool.false_ne_true hreserved
  · intro hfree earlier request
    rw [← Bool.not_eq_true, answerAfter, hanswer]
    exact fun h => hfree _ _ h.2

/-- A word of the language whose escape a user wants to be avoided. -/
theorem isReserved_answer_type :
    let target := TargetSettings.apply { reservedWords := ["type_"] } Haskell.target
    answerAfter target [] (.function "type") = "type_" ∧ target.isReserved "type_" = true := by
  decide +kernel

end Names

end ServantGen
