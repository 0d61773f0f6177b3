import ServantGen.Haskell.ApiModule
import ServantGen.Proofs.Code
import ServantGen.Proofs.Haskell.Packages
import ServantGen.Settings

/-!
# What titles and tags become

Whatever the title, the version and the tags of an interface are, the names made from them have
letters and digits only, the package name has hyphens besides, and comments stay on one line.
-/

namespace ServantGen.Haskell

open Text (MadeOf OnOneLine)

theorem onOneLine_of_isAlphanum {text : String} (h : MadeOf Char.isAlphanum text) :
    OnOneLine text :=
  h.avoids (by decide)

/-! ## Identifiers -/

theorem madeOf_casing (role : Role) (raw : String) :
    MadeOf Char.isAlphanum (convention.casing role raw) := by
  cases role with
  | type | variant | module => exact Text.madeOf_pascal raw
  | field | function | parameter => exact Text.madeOf_camel raw

/-- Identifiers have letters and digits only, unless they are escaped. -/
theorem madeOf_base (role : Role) (raw : String) :
    MadeOf Char.isAlphanum (convention.base role raw) := by
  have hcased : MadeOf Char.isAlphanum (convention.cased role raw) := by
    unfold Convention.cased
    dsimp only
    split <;> exact madeOf_casing role _
  have hlead : MadeOf Char.isAlphanum (convention.digitLead role) := by
    cases role <;> decide
  unfold Convention.base
  dsimp only
  split
  · exact Text.madeOf_append.2 ⟨hlead, hcased⟩
  · exact hcased

theorem base_ne_empty (role : Role) (raw : String) : convention.base role raw ≠ "" := by
  have hcased : convention.cased role raw ≠ "" := by
    unfold Convention.cased
    dsimp only
    split
    · cases role <;> decide
    · assumption
  unfold Convention.base
  dsimp only
  split
  · simp [hcased]
  · exact hcased

section Context

variable {context : RenderContext}

theorem madeOf_moduleName (h : context.target.convention = convention) :
    MadeOf Char.isAlphanum (moduleName context) := by
  rw [moduleName, h]
  exact madeOf_base _ _

theorem moduleName_ne_empty (h : context.target.convention = convention) :
    moduleName context ≠ "" := by
  rw [moduleName, h]
  exact base_ne_empty _ _

/-- What lasts behind an underscore lasts when a name gets clear of others. -/
theorem clearOf_induction {P : String → Prop} (hstep : ∀ name, P name → P (name ++ "_"))
    (taken : List String) (fuel : Nat) {name : String} (h : P name) :
    P (clearOf taken fuel name) := by
  induction fuel generalizing name with
  | zero => exact h
  | succ fuel ih =>
    unfold clearOf
    split
    · exact ih (hstep name h)
    · exact h

theorem onOneLine_backendName (h : context.target.convention = convention) :
    OnOneLine (backendName context) := by
  refine clearOf_induction (fun name hname => Text.madeOf_append.2 ⟨hname, by decide⟩) _ _ ?_
  exact Text.madeOf_append.2 ⟨onOneLine_of_isAlphanum (madeOf_moduleName h), by decide⟩

theorem onOneLine_claimFresh (scope : NameScope) (reserved : List String) (raw : String)
    {preferred : String} (h : OnOneLine preferred) :
    OnOneLine (scope.claimFresh reserved raw preferred).1.name := by
  unfold NameScope.claimFresh
  split
  · exact h
  · dsimp only
    unfold NameScope.alternative
    split
    · rename_i n _
      have hnumber := (Text.madeOf_decimal n).mono fun _ => Text.isAlphanum_of_isDigit
      exact Text.madeOf_append.2 ⟨h, onOneLine_of_isAlphanum hnumber⟩
    · exact Text.madeOf_append.2 ⟨h, by decide⟩

/-- The types of groups have names on one line. -/
theorem onOneLine_groupsOf (h : context.target.convention = convention) (scope : NameScope)
    (groups : List TagGroup) :
    ∀ group ∈ (groupsOf context scope groups).1, OnOneLine group.typeName := by
  induction groups generalizing scope with
  | nil => simp [groupsOf]
  | cons group rest ih =>
    refine List.forall_mem_cons.2 ⟨?_, ih _⟩
    have hbase : OnOneLine (context.target.convention.base .type group.tag) := by
      rw [h]
      exact onOneLine_of_isAlphanum (madeOf_base _ _)
    exact onOneLine_claimFresh scope _ _ (Text.madeOf_append.2 ⟨hbase, by decide⟩)

end Context

/-! ## Packages -/

/-- A package name has letters, digits and hyphens only. -/
theorem madeOf_packageName (name : String) :
    MadeOf (fun c => c.isAlphanum || c == '-') (packageName name) :=
  (isPackageName_packageName name).madeOf rfl
    fun component hcomponent c hc => by simp [hcomponent.isAlphanum c hc]

theorem onOneLine_packageName (name : String) : OnOneLine (packageName name) :=
  (madeOf_packageName name).avoids (by decide)

theorem onOneLine_packageVersion (version : String) : OnOneLine (packageVersion version) :=
  (isDotted_packageVersion version).madeOf.avoids (by decide)

/-! ## Comments -/

theorem forall_mem_part {P : Char → Prop} (hblank : P ' ') (left right : Char) (cs : List Char)
    (h : ∀ c ∈ cs, P c) : ∀ c ∈ part left right cs, P c := by
  fun_induction part left right cs with
  | case1 c d rest hpair ih =>
    obtain ⟨hc, hrest⟩ := List.forall_mem_cons.1 h
    exact List.forall_mem_cons.2 ⟨hc, List.forall_mem_cons.2 ⟨hblank, ih hrest⟩⟩
  | case2 c d rest hpair ih =>
    obtain ⟨hc, hrest⟩ := List.forall_mem_cons.1 h
    exact List.forall_mem_cons.2 ⟨hc, ih hrest⟩
  | case3 cs hshort => exact h

/-- A comment stays on one line. -/
theorem onOneLine_commentText (text : String) : OnOneLine (commentText text) := by
  rw [commentText, OnOneLine, Text.madeOf_ofList]
  refine forall_mem_part (by decide) _ _ _ (forall_mem_part (by decide) _ _ _ ?_)
  refine Text.forall_mem_intercalate (by simp) ?_
  intro word hword c hc
  have hblank := Text.isBreak_eq_false_of_mem_splitBy (List.mem_of_mem_filter hword) hc
  rw [bne_iff_ne]
  rintro rfl
  exact absurd hblank (by decide)

end ServantGen.Haskell
