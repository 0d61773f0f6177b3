import ServantGen.Haskell.Package
import ServantGen.Proofs.Text.Words
import ServantGen.Text.Ascii

/-!
# Names in their casings

A name in small words with a mark between them has the words of the name, written small. No casing
tells small words from others, so a name and its small forms have the same form in every casing, and
the module of a package is named as if after the title that the package is named after.
-/

namespace ServantGen

namespace Text

/-! ## Small words -/

def small (words : List (List Char)) : List (List Char) :=
  words.map (List.map Char.toLower)

theorem map_toLower_map_toLower (word : List Char) :
    (word.map Char.toLower).map Char.toLower = word.map Char.toLower := by
  rw [List.map_map]
  exact List.map_congr_left fun c _ => toLower_toLower c

@[simp] theorem small_small (words : List (List Char)) : small (small words) = small words := by
  rw [small, small, List.map_map]
  exact List.map_congr_left fun word _ => map_toLower_map_toLower word

theorem map_capitalized_small (words : List (List Char)) :
    (small words).map capitalized = words.map capitalized := by
  rw [small, List.map_map]
  refine List.map_congr_left fun word _ => ?_
  cases word with
  | nil => rfl
  | cons c rest =>
    rw [Function.comp_apply, List.map_cons, capitalized, capitalized, toUpper_toLower,
      map_toLower_map_toLower]

theorem joined_eq (mark : Char) (words : List (List Char)) :
    Casing.joined mark words = [mark].intercalate (small words) := rfl

/-- No casing tells small words from others. -/
theorem Casing.write_small (casing : Casing) (words : List (List Char)) :
    casing.write (small words) = casing.write words := by
  cases casing with
  | pascal => rw [write, write, map_capitalized_small]
  | camel =>
    cases words with
    | nil => rfl
    | cons first rest =>
      have hrest := map_capitalized_small rest
      simp only [small, List.map_cons, write] at hrest ⊢
      rw [hrest, map_toLower_map_toLower]
  | snake => rw [write, write, joined_eq, joined_eq, small_small]
  | kebab => rw [write, write, joined_eq, joined_eq, small_small]

/-- The casings that put a character between small words. -/
def Casing.mark? : Casing → Option Char
  | .pascal | .camel => none
  | .snake => some '_'
  | .kebab => some '-'

theorem Casing.write_of_mark?_eq_some {casing : Casing} {mark : Char}
    (h : casing.mark? = some mark) (words : List (List Char)) :
    mark.isAlphanum = false ∧ casing.write words = [mark].intercalate (small words) := by
  cases casing with
  | pascal | camel => simp [mark?] at h
  | snake | kebab =>
    obtain rfl := Option.some.inj h
    exact ⟨by decide, rfl⟩

/-- A name in small words has the words of the name, written small. -/
theorem Casing.wordChars_apply {casing : Casing} (h : casing.mark?.isSome = true) (name : String) :
    wordChars (casing.apply name).toList = small (wordChars name.toList) := by
  obtain ⟨mark, hmark⟩ := Option.isSome_iff_exists.1 h
  obtain ⟨hother, hwrite⟩ := write_of_mark?_eq_some hmark (wordChars name.toList)
  rw [apply, String.toList_ofList, hwrite, wordChars_intercalate hother]
  refine List.forall_mem_map.2 fun word hword => ⟨?_, List.forall_mem_map.2 fun c hc => ?_⟩
  · simpa using ne_nil_of_mem_wordChars _ word hword
  · exact isSmallOrDigit_toLower (isAlphanum_of_mem_wordChars _ word hword c hc)

/-- A name in small words has the same form in every casing as the name. -/
theorem Casing.apply_apply {casing : Casing} (h : casing.mark?.isSome = true) (other : Casing)
    (name : String) : other.apply (casing.apply name) = other.apply name := by
  rw [apply, wordChars_apply h, write_small]
  rfl

theorem words_apply {casing : Casing} (h : casing.mark?.isSome = true) (name : String) :
    words (casing.apply name) = (words name).map lower := by
  rw [words, Casing.wordChars_apply h, words, small, List.map_map, List.map_map]
  refine List.map_congr_left fun word _ => ?_
  simp [lower]

theorem join_words (name : String) :
    String.join (words name) = String.ofList (name.toList.filter Char.isAlphanum) := by
  rw [← String.toList_inj, String.toList_join, words, ← flatten_wordChars, String.toList_ofList,
    List.flatMap_map]
  simp [List.flatMap]

end Text

open Text (Casing)

/-- What is made of a name in a role only depends on its form in the casing of the role. -/
theorem Convention.base_congr {convention : Convention} {role : Role} {name other : String}
    (h : convention.casing role name = convention.casing role other) :
    convention.base role name = convention.base role other := by
  rw [base, base, cased, cased, h]

namespace Haskell

theorem exists_casing_convention (role : Role) :
    ∃ casing : Casing, convention.casing role = casing.apply := by
  cases role with
  | type | variant | module => exact ⟨.pascal, rfl⟩
  | field | function | parameter => exact ⟨.camel, rfl⟩

theorem base_kebab (role : Role) (name : String) :
    convention.base role (Casing.kebab.apply name) = convention.base role name := by
  obtain ⟨casing, hcasing⟩ := exists_casing_convention role
  refine Convention.base_congr ?_
  rw [hcasing, Casing.apply_apply rfl]

/-- The module of a package that is named after a title is named as if after the title. -/
theorem moduleName_eq_base_title {context : RenderContext}
    (hconvention : context.target.convention = convention)
    (hpackage : context.target.package = none)
    (htitle : Casing.kebab.apply context.api.info.title ≠ "") :
    moduleName context = convention.base .module context.api.info.title := by
  rw [moduleName, hconvention, RenderContext.packageName, hpackage]
  simp only [if_neg htitle]
  exact base_kebab .module _

end Haskell

/-! ## Words and names -/

/-- The words of a name are not empty and hold its letters and digits in order. Two of these with no
others between them stand in different words exactly when they are not neighbours, or when the
second is a capital and the first is a small letter, a digit, or a capital before the last one of a
row that a small letter follows. The words of a name in snake or kebab case are the words of the
name, written small; so in every casing both have the form of the name, and they lead to the same
identifiers and the same module name. -/
theorem Text.words_canonical (name : String) :
    (∀ word ∈ words name, word ≠ "" ∧ MadeOf Char.isAlphanum word) ∧
    String.join (words name) = String.ofList (name.toList.filter Char.isAlphanum) ∧
    (∀ (before gap after : List Char) (c d : Char),
      name.toList = before ++ c :: (gap ++ d :: after) →
      c.isAlphanum = true → d.isAlphanum = true → (∀ g ∈ gap, g.isAlphanum = false) →
      let number := (before.filter Char.isAlphanum).length
      let indexOf := wordIndex ((words name).map String.toList)
      (indexOf number ≠ indexOf (number + 1) ↔
        gap ≠ [] ∨
          (d.isUpper = true ∧ (c.isLower = true ∨ c.isDigit = true ∨
            (c.isUpper = true ∧ ∃ e ∈ after.head?, e.isLower = true))))) ∧
    (∀ casing ∈ [Casing.snake, Casing.kebab], words (casing.apply name) = (words name).map lower ∧
      ∀ other : Casing, other.apply (casing.apply name) = other.apply name) ∧
    (∀ role, Haskell.convention.base role (Casing.kebab.apply name) =
      Haskell.convention.base role name) ∧
    (∀ context : RenderContext, context.api.info.title = name →
      context.target.convention = Haskell.convention → context.target.package = none →
      Casing.kebab.apply name ≠ "" →
      Haskell.moduleName context = Haskell.convention.base .module name) := by
  have hwords : (words name).map String.toList = wordChars name.toList := by
    simp [words, Function.comp_def]
  refine ⟨?_, join_words name, ?_, ?_, fun role => Haskell.base_kebab role name, ?_⟩
  · refine List.forall_mem_map.2 fun word hword => ⟨?_, ?_⟩
    · rw [ne_eq, ← String.toList_eq_nil_iff, String.toList_ofList]
      exact ne_nil_of_mem_wordChars _ word hword
    · exact madeOf_ofList.2 (isAlphanum_of_mem_wordChars _ word hword)
  · intro before gap after c d hname hc hd hgap
    have hends := wordIndex_ne_succ_iff before after hc hd hgap
    rw [hwords, hname]
    refine hends.trans (or_congr_right ?_)
    cases after <;> simp [startsWord, or_assoc]
  · intro casing hcasing
    have hmark : casing.mark?.isSome = true := by
      rcases List.mem_pair.1 hcasing with rfl | rfl <;> rfl
    exact ⟨words_apply hmark name, fun other => Casing.apply_apply hmark other name⟩
  · rintro context rfl hconvention hpackage htitle
    exact Haskell.moduleName_eq_base_title hconvention hpackage htitle

/-- A row of capitals, a digit and a blank. -/
theorem Text.words_canonical_capitals :
    let name := "HTTPServer2Api v1"
    let context : RenderContext := ⟨⟨⟨name, "1.0", none⟩, ⟨[]⟩, []⟩, Haskell.target⟩
    words name = ["HTTP", "Server2", "Api", "v1"] ∧
    wordIndex ((words name).map String.toList) 3 ≠ wordIndex ((words name).map String.toList) 4 ∧
    words (Casing.kebab.apply name) = ["http", "server2", "api", "v1"] ∧
    Haskell.moduleName context = "HttpServer2ApiV1" := by
  obtain ⟨-, -, hends, hsmall, -, hmodule⟩ := Text.words_canonical "HTTPServer2Api v1"
  have hcapitals := hends "HTT".toList [] "erver2Api v1".toList 'P' 'S' rfl (by decide)
    (by decide) (by simp)
  have hlast : 'S'.isUpper = true ∧ ∃ e ∈ "erver2Api v1".toList.head?, e.isLower = true :=
    ⟨by decide, 'e', rfl, by decide⟩
  refine ⟨by decide +kernel, hcapitals.2 (.inr ⟨hlast.1, .inr (.inr ⟨by decide, hlast.2⟩)⟩), ?_, ?_⟩
  · rw [(hsmall .kebab (by simp)).1]
    decide +kernel
  · have hkebab : Casing.kebab.apply "HTTPServer2Api v1" ≠ "" := by decide +kernel
    rw [hmodule _ rfl rfl rfl hkebab]
    decide +kernel

end ServantGen
