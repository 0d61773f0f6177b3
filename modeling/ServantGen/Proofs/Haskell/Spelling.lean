import ServantGen.Proofs.Haskell.Words
import ServantGen.Proofs.Text.Words

/-!
# The spelling of names

Types and constructors begin with a capital, fields and functions with a small letter, and behind
it come letters, digits and underscores. Names keep their spelling when something is put behind
them: an underscore, a number, or another name. The name of a field goes on with a capital or a
digit behind the name of its model, so it is no word of the language.
-/

namespace ServantGen

open Text (MadeOf isCapitalOrDigit)

namespace Haskell

/-! ## Names -/

/-- A name that begins with a character of a kind, and goes on with letters, digits and
underscores. -/
structure IsName (kind : Char → Bool) (name : String) : Prop where
  word : IsWord name
  first : name.toList.head?.any kind = true

instance (kind : Char → Bool) (name : String) : Decidable (IsName kind name) :=
  decidable_of_iff (IsWord name ∧ name.toList.head?.any kind = true)
    ⟨fun h => ⟨h.1, h.2⟩, fun h => ⟨h.1, h.2⟩⟩

abbrev IsConstructorName : String → Prop := IsName Char.isUpper

/-- The name of a field or a function. -/
abbrev IsValueName : String → Prop := IsName Char.isLower

/-- A name without a digit at its end: it got no number. -/
def HasNoNumber (name : String) : Prop :=
  name.toList.getLast?.any (fun c => !c.isDigit) = true

instance (name : String) : Decidable (HasNoNumber name) :=
  inferInstanceAs (Decidable (_ = _))

/-- A name that was handed out for another: the same, or with a number behind it. -/
def NamedAfter (asked given : String) : Prop :=
  given = asked ∨ ∃ number, given = NameScope.numbered asked number

section Names

variable {kind : Char → Bool} {name asked given : String}

theorem IsName.append {more : String} (h : IsName kind name)
    (hmore : MadeOf (fun c => c.isAlphanum || c == '_') more) : IsName kind (name ++ more) where
  word := h.word.append hmore
  first := by
    have hfirst := h.first
    rw [String.toList_append]
    cases hcs : name.toList with
    | nil => simp [hcs] at hfirst
    | cons c cs => simpa [hcs] using hfirst

theorem NamedAfter.exists_append (h : NamedAfter asked given) :
    ∃ more, given = asked ++ more ∧ MadeOf Char.isDigit more := by
  obtain rfl | ⟨number, rfl⟩ := h
  · exact ⟨"", by simp, by decide⟩
  · exact ⟨_, rfl, Text.madeOf_decimal number⟩

theorem NamedAfter.isName (h : NamedAfter asked given) (hasked : IsName kind asked) :
    IsName kind given := by
  obtain ⟨more, rfl, hmore⟩ := h.exists_append
  exact hasked.append (hmore.mono fun c hc => by simp [Text.isAlphanum_of_isDigit hc])

theorem NamedAfter.eq_of_hasNoNumber (h : NamedAfter asked given) (hgiven : HasNoNumber given) :
    given = asked := by
  obtain heq | ⟨number, rfl⟩ := h
  · exact heq
  · exfalso
    have hne : (Text.decimal number).toList ≠ [] := by
      simpa using (isWord_decimal number).ne_empty
    obtain ⟨c, hlast, hc⟩ := (Option.any_eq_true _ _).1 hgiven
    rw [NameScope.numbered, String.toList_append, List.getLast?_append_of_ne_nil _ hne] at hlast
    have hdigit := Text.madeOf_decimal number c (List.mem_of_getLast? hlast)
    simp [hdigit] at hc

theorem namedAfter_claimFresh (scope : NameScope) (reserved : List String)
    (raw preferred : String) :
    NamedAfter preferred (scope.claimFresh reserved raw preferred).1.name := by
  obtain heq | ⟨existing, own, -, ⟨number, rfl⟩, heq⟩ :=
    scope.claimFresh_cases reserved raw preferred
  · exact .inl (by rw [heq])
  · exact .inr ⟨number, by rw [heq]⟩

end Names

/-! ## Identifiers -/

/-- The kind of letter that a name of a role begins with. -/
def initial : Role → Char → Bool
  | .type | .variant | .module => Char.isUpper
  | .field | .function | .parameter => Char.isLower

theorem initial_or_isDigit_of_head?_casing {role : Role} {raw : String} {c : Char}
    (h : (convention.casing role raw).toList.head? = some c) :
    (initial role c || c.isDigit) = true := by
  cases role with
  | type | variant | module => exact Text.isCapitalOrDigit_of_head?_pascal h
  | field | function | parameter => exact Text.isSmallOrDigit_of_head?_camel h

/-- A name begins with a letter of the kind that its role asks for, also where only digits are left
of the raw name. -/
theorem initial_base (role : Role) (raw : String) :
    (convention.base role raw).toList.head?.any (initial role) = true := by
  obtain ⟨own, hown⟩ : ∃ own, convention.cased role raw = convention.casing role own := by
    unfold Convention.cased
    dsimp only
    split
    · exact ⟨unnamed, rfl⟩
    · exact ⟨raw, rfl⟩
  obtain ⟨c, cs, hcs⟩ : ∃ c cs, (convention.base role raw).toList = c :: cs :=
    List.exists_cons_of_ne_nil (by simpa using base_ne_empty role raw)
  unfold Convention.base at hcs ⊢
  dsimp only at hcs ⊢
  split at hcs
  · rename_i hdigit
    rw [if_pos hdigit]
    cases role <;> simp [convention, digitLead, initial]
  · rename_i hdigit
    have hc := @initial_or_isDigit_of_head?_casing role own c
      (by rw [← hown, hcs]; rfl)
    have hletter : c.isDigit = false := by simpa [hcs] using hdigit
    rw [if_neg hdigit, hcs]
    simpa [hletter] using hc

theorem isConstructorName_base (raw : String) : IsConstructorName (convention.base .type raw) where
  word := isWord_base .type raw
  first := initial_base .type raw

theorem isConstructorName_identifier {target : Target} (h : target.convention = convention)
    (raw : String) : IsConstructorName (target.identifier .type raw) := by
  unfold Target.identifier
  rw [h]
  dsimp only
  split
  · exact (isConstructorName_base raw).append (by decide)
  · exact isConstructorName_base raw

/-- The name with a small first letter is the name of a value. -/
theorem isValueName_lowerFirst {name : String} (h : IsConstructorName name) :
    IsValueName (lowerFirst name) := by
  obtain ⟨⟨hne, hmade⟩, hfirst⟩ := h
  cases hcs : name.toList with
  | nil => exact absurd (String.toList_eq_nil_iff.1 hcs) hne
  | cons c cs =>
    have hc : c.isUpper = true := by simpa [hcs] using hfirst
    have hlower := Text.isLower_toLower hc
    have hchars : ∀ d ∈ cs, (d.isAlphanum || d == '_') = true := fun d hd =>
      hmade d (hcs ▸ List.mem_cons_of_mem c hd)
    unfold lowerFirst
    rw [hcs]
    refine ⟨⟨by simp, ?_⟩, by simpa using hlower⟩
    rw [Text.madeOf_ofList, List.forall_mem_cons]
    exact ⟨by simp [Text.isAlphanum_iff, Text.isLower_iff.1 hlower], hchars⟩

/-- The name that a field asks for: behind the name of its model it starts like a word of its
own. -/
def selectorName (model field : String) : String :=
  lowerFirst model ++ Text.Casing.pascal.apply field

theorem isValueName_selectorName {model : String} (h : IsConstructorName model) (field : String) :
    IsValueName (selectorName model field) :=
  (isValueName_lowerFirst h).append
    ((Text.madeOf_pascal field).mono fun c hc => by simp [hc])

/-- What a field gets is no word of small letters. -/
theorem NamedAfter.ne_of_isLower {model field given word : String}
    (h : NamedAfter (selectorName model field) given) (hfield : Text.Casing.pascal.apply field ≠ "")
    (hword : MadeOf Char.isLower word) : given ≠ word := by
  rintro rfl
  obtain ⟨more, rfl, -⟩ := h.exists_append
  obtain ⟨c, cs, hcs⟩ : ∃ c cs, (Text.Casing.pascal.apply field).toList = c :: cs :=
    List.exists_cons_of_ne_nil (by simpa using hfield)
  have hc : isCapitalOrDigit c = true :=
    Text.isCapitalOrDigit_of_head?_pascal (by rw [hcs]; rfl)
  have hlower := hword c (by simp [selectorName, hcs])
  simp [Text.not_isLower_of_isCapitalOrDigit hc] at hlower

theorem exists_isAlphanum_identifier {target : Target} (h : target.convention = convention)
    (role : Role) (raw : String) :
    ∃ c ∈ (target.identifier role raw).toList, c.isAlphanum = true := by
  obtain ⟨c, cs, hcs⟩ : ∃ c cs, (convention.base role raw).toList = c :: cs :=
    List.exists_cons_of_ne_nil (by simpa using base_ne_empty role raw)
  have hmem : c ∈ (convention.base role raw).toList := by simp [hcs]
  refine ⟨c, ?_, madeOf_base role raw c hmem⟩
  unfold Target.identifier
  rw [h]
  dsimp only
  split
  · exact String.toList_append ▸ List.mem_append_left _ hmem
  · exact hmem

end Haskell

/-! ## Lowered interfaces -/

open Haskell (IsConstructorName NamedAfter)

namespace Api

/-- Types have capital names, and fields have names of letters and digits at all. -/
structure WellSpelled (api : Api) : Prop where
  types : ∀ name ∈ api.models.names ++ api.inlineEnums.map InlineEnum.name, IsConstructorName name
  fields : ∀ model ∈ api.models.models, ∀ field ∈ model.fields,
    Text.Casing.pascal.apply field.name ≠ ""

/-- The fields of the models are among the identifiers of an interface. -/
theorem mem_namings_of_mem_fields {api : Api} {model : Model} (hmodel : model ∈ api.models.models)
    {field : Field} (hfield : field ∈ model.fields) (declared : Nat) :
    ⟨.field, field.rawName, field.name⟩ ∈ api.namings declared := by
  have hinside : ∀ hint, ⟨.field, field.rawName, field.name⟩ ∈ model.namings hint := by
    intro hint
    unfold Model.fields at hfield
    split at hfield
    · rename_i fields hshape
      refine List.mem_cons_of_mem _ ?_
      rw [Model.inside, hshape]
      exact List.mem_flatMap.2 ⟨field, hfield, List.mem_cons_self⟩
    · simp at hfield
  rw [← List.take_append_drop declared api.models.models] at hmodel
  refine List.mem_append_left _ ?_
  obtain hmodel | hmodel := List.mem_append.1 hmodel
  · exact List.mem_append_left _ (List.mem_flatMap.2 ⟨model, hmodel, hinside _⟩)
  · exact List.mem_append_right _ (List.mem_flatMap.2 ⟨model, hmodel, hinside _⟩)

end Api

namespace Lowering

variable {setting : Setting} {api : Api} {notices : List Notice}

/-- Every type has the name its raw name asks for, or that one with a number behind it. -/
theorem Account.exists_namedAfter {declared added : List Model} {claimed : List Naming}
    {final : State} (h : Account setting api declared added claimed final) {name : String}
    (hname : name ∈ api.models.names ++ api.inlineEnums.map InlineEnum.name) :
    ∃ raw, NamedAfter (setting.target.identifier .type raw) name := by
  rw [h.namesApart.enums,
    ← (Api.namesIn_type_perm setting.document.schemas.length api).mem_iff] at hname
  obtain ⟨naming, hmem, rfl⟩ := List.mem_map.1 hname
  obtain ⟨hmem, hrole⟩ := List.mem_filter.1 hmem
  have hnamed := h.identifier_or_numbered hmem
  rw [beq_iff_eq.1 hrole] at hnamed
  exact ⟨naming.raw, hnamed⟩

/-- What a document without repeated keys is lowered to is spelled as the language asks for. -/
theorem wellSpelled_of_run_eq_ok (h : run setting = some ⟨.ok api, notices⟩)
    (hkeys : setting.document.tree.hasDistinctKeys = true)
    (hconvention : setting.target.convention = Haskell.convention) : api.WellSpelled := by
  obtain ⟨final, -, -, declared, added, claimed, haccount⟩ := account_of_run_eq_ok h hkeys
  refine ⟨fun name hname => ?_, fun model hmodel field hfield => ?_⟩
  · obtain ⟨raw, hnamed⟩ := haccount.exists_namedAfter hname
    exact hnamed.isName (Haskell.isConstructorName_identifier hconvention raw)
  · have hnaming := Api.mem_namings_of_mem_fields hmodel hfield setting.document.schemas.length
    have hnamed : NamedAfter _ _ := haccount.identifier_or_numbered hnaming
    obtain ⟨more, hname, -⟩ := hnamed.exists_append
    obtain ⟨c, hc, halphanum⟩ :=
      Haskell.exists_isAlphanum_identifier hconvention .field field.rawName
    refine Text.pascal_ne_empty ⟨c, ?_, halphanum⟩
    rw [show field.name = _ from hname]
    exact String.toList_append ▸ List.mem_append_left _ hc

end Lowering

end ServantGen
