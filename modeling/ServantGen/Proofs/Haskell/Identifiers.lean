import ServantGen.Proofs.Haskell.Spelling
import ServantGen.Proofs.Naming.Requests

/-!
# Identifiers are words of the language

Whatever names identifiers are asked for, and in whatever order, each answer begins with a letter of
the kind that its role asks for and goes on with letters and digits; behind these there may be an
underscore, which tells it from a reserved word, and a number, which tells it from other
identifiers. Where only the names are reserved that the generated modules use, no answer is one of
them or a word of the language.

A scope that an asker keeps does not ask what a raw name is to stand for: once the raw name has an
identifier, this is the answer in every role.
-/

namespace ServantGen.Haskell

open Text (MadeOf)

/-- A letter of the role's kind with letters and digits behind it, perhaps an underscore, and
digits. -/
def IsIdentifier (role : Role) (name : String) : Prop :=
  ∃ word mark digits : String, name = word ++ mark ++ digits ∧
    word.toList.head?.any (initial role) = true ∧ MadeOf Char.isAlphanum word ∧
    (mark = "" ∨ mark = "_") ∧ MadeOf Char.isDigit digits

variable {target : Target} {role : Role} {raw name : String}

theorem IsIdentifier.initial_head? (h : IsIdentifier role name) :
    name.toList.head?.any (initial role) = true := by
  obtain ⟨word, mark, digits, rfl, hfirst, -⟩ := h
  cases hcs : word.toList with
  | nil => simp [hcs] at hfirst
  | cons c cs => simpa [hcs] using hfirst

/-- An identifier is its base, or the base with an underscore behind it. -/
theorem exists_mark_identifier (h : target.convention = convention) (role : Role) (raw : String) :
    ∃ mark, (mark = "" ∨ mark = "_") ∧
      target.identifier role raw = convention.base role raw ++ mark := by
  unfold Target.identifier
  rw [h]
  dsimp only
  split
  · exact ⟨"_", .inr rfl, rfl⟩
  · exact ⟨"", .inl rfl, by rw [String.append_empty]⟩

/-- What may be handed out in a role is an identifier of the role. -/
theorem isIdentifier_of_grants (hconvention : target.convention = convention)
    (h : target.Grants role raw name) : IsIdentifier role name := by
  obtain ⟨mark, hmark, hidentifier⟩ := exists_mark_identifier hconvention role raw
  obtain ⟨digits, hname, hdigits⟩ :
      ∃ digits, name = target.identifier role raw ++ digits ∧ MadeOf Char.isDigit digits := by
    obtain rfl | ⟨number, rfl⟩ := h.named
    · exact ⟨"", by rw [String.append_empty], by decide⟩
    · exact ⟨_, rfl, Text.madeOf_decimal number⟩
  exact ⟨convention.base role raw, mark, digits, by rw [hname, hidentifier], initial_base role raw,
    madeOf_base role raw, hmark, hdigits⟩

/-- No name that is reserved for the generated modules is the escape of one. -/
theorem not_escapesToReserved_of_generatedNames (hconvention : target.convention = convention)
    (hwords : target.reservedWords = generatedNames) : ¬ target.EscapesToReserved role raw := by
  have hreserved : target.reserved = keywords ++ generatedNames := by
    rw [Target.reserved, hconvention, hwords]
    rfl
  have hplain : ∀ word ∈ keywords ++ generatedNames, MadeOf Char.isAlphanum word := by decide
  refine Target.not_escapesToReserved fun word _ hescape => ?_
  rw [hreserved, hconvention] at hescape
  have hmark : '_' ∈ (word ++ "_").toList := by simp
  exact (hplain _ hescape).notMem (by decide) hmark

end ServantGen.Haskell

namespace ServantGen.Names

open Haskell (IsIdentifier)

/-- Whatever was asked for before, a request is answered with an identifier of the role that decides
on it, which is its own role unless it claims an identifier in a scope that an asker keeps; and if
only the names of the generated modules are reserved, the identifier is none of these and no word
of the language. -/
theorem answer_isIdentifier {target : Target} (h : target.convention = Haskell.convention)
    (earlier : List NameRequest) (request : NameRequest) :
    IsIdentifier (request.decider earlier).role (answerAfter target earlier request) ∧
      ((∀ key raw role, request ≠ .claimIn key raw role) →
        IsIdentifier request.role (answerAfter target earlier request)) ∧
      (target.reservedWords = Haskell.generatedNames →
        answerAfter target earlier request ∉ Haskell.keywords ∧
          answerAfter target earlier request ∉ Haskell.generatedNames) := by
  have hgrants := (remembers_after target earlier).grants request
  have hidentifier := Haskell.isIdentifier_of_grants h hgrants
  refine ⟨hidentifier, fun hown => ?_, fun hwords => ?_⟩
  · rwa [NameRequest.role_decider hown] at hidentifier
  · have hfree : target.isReserved (answerAfter target earlier request) ≠ true := fun hreserved =>
      Haskell.not_escapesToReserved_of_generatedNames h hwords
        (hgrants.isReserved_iff.1 hreserved).2
    simpa [Target.isReserved, Target.reserved, h, hwords, Haskell.convention] using hfree

/-- A number behind an escaped word. -/
theorem answer_isIdentifier_escaped :
    let earlier : List NameRequest := [.claimIn "own" "Data" .field, .type "2fa"]
    let request : NameRequest := .freshIn "own" "data" .parameter
    Haskell.target.convention = Haskell.convention ∧
      (∀ key raw role, request ≠ .claimIn key raw role) ∧
      Haskell.target.reservedWords = Haskell.generatedNames ∧
      answerAfter Haskell.target earlier request = "data_2" ∧
      IsIdentifier .parameter (answerAfter Haskell.target earlier request) ∧
      answerAfter Haskell.target earlier request ∉ Haskell.keywords ∧
      answerAfter Haskell.target earlier request ∉ Haskell.generatedNames := by
  intro earlier request
  have hanswer := @answer_isIdentifier Haskell.target rfl earlier request
  have hown : ∀ key raw role, request ≠ .claimIn key raw role :=
    fun _ _ _ => NameRequest.noConfusion
  exact ⟨rfl, hown, rfl, by decide +kernel, hanswer.2.1 hown, hanswer.2.2 rfl⟩

/-- A raw name that is a type of a scope and then a field of it. -/
theorem answer_not_isIdentifier :
    let earlier : List NameRequest := [.claimIn "own" "a" .type]
    let request : NameRequest := .claimIn "own" "a" .field
    answerAfter Haskell.target earlier request = "A" ∧
      ¬ IsIdentifier request.role (answerAfter Haskell.target earlier request) := by
  intro earlier request
  have hanswer : answerAfter Haskell.target earlier request = "A" := by decide +kernel
  refine ⟨hanswer, fun h => ?_⟩
  rw [hanswer] at h
  exact absurd h.initial_head? (by decide)

end ServantGen.Names
