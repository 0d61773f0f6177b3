import ServantGen.Haskell.Package
import ServantGen.Proofs.Route.NormalForm
import ServantGen.Proofs.Text.Numerals

/-!
# Names and versions of packages

The name of a package consists of components that hold a letter, with hyphens between them, and a
name that does already is kept. Its version consists of numbers in digits with points between them;
a version that does already is kept, and numbers are kept as they are written. So the build tool
accepts a version exactly when no number at the start of the document's version has a zero in front
of it or more than nine digits.
-/

namespace ServantGen

/-! ## Parts with a mark between them -/

namespace Text

/-- One part or more of a kind, with a mark between them. -/
def IsSeparated (mark : Char) (kind : List Char → Prop) (text : String) : Prop :=
  ∃ parts ≠ [], (∀ part ∈ parts, kind part) ∧ text.toList = [mark].intercalate parts

variable {mark : Char} {kind : List Char → Prop} {text : String}

theorem isSeparated_ofList {parts : List (List Char)} (hne : parts ≠ [])
    (h : ∀ part ∈ parts, kind part) :
    IsSeparated mark kind (String.ofList ([mark].intercalate parts)) :=
  ⟨parts, hne, h, String.toList_ofList⟩

theorem IsSeparated.mono {other : List Char → Prop} (h : IsSeparated mark kind text)
    (himp : ∀ part, kind part → other part) : IsSeparated mark other text := by
  obtain ⟨parts, hne, hkind, htext⟩ := h
  exact ⟨parts, hne, fun part hpart => himp part (hkind part hpart), htext⟩

theorem IsSeparated.madeOf {allowed : Char → Bool} (h : IsSeparated mark kind text)
    (hmark : allowed mark = true) (hkind : ∀ part, kind part → ∀ c ∈ part, allowed c = true) :
    MadeOf allowed text := by
  obtain ⟨parts, -, hparts, htext⟩ := h
  rw [MadeOf, htext]
  exact forall_mem_intercalate (List.forall_mem_singleton.2 hmark)
    fun part hpart => hkind part (hparts part hpart)

/-- The parts are the pieces of the text. -/
theorem IsSeparated.exists_pieces (h : IsSeparated mark kind text) (isBreak : Char → Bool)
    (hmark : isBreak mark = true)
    (hkind : ∀ part, kind part → part ≠ [] ∧ ∀ c ∈ part, isBreak c = false) :
    (∀ part ∈ pieces isBreak text.toList, kind part) ∧ pieces isBreak text.toList ≠ [] ∧
      text = String.ofList ([mark].intercalate (pieces isBreak text.toList)) := by
  obtain ⟨parts, hne, hparts, htext⟩ := h
  have hpieces : pieces isBreak text.toList = parts := by
    rw [htext, pieces_intercalate hmark hne fun part hpart => hkind part (hparts part hpart)]
  rw [hpieces]
  exact ⟨hparts, hne, by rw [← htext, String.ofList_toList]⟩

theorem isSeparated_ofList_iff {parts : List (List Char)} (isBreak : Char → Bool)
    (hmark : isBreak mark = true) (hne : parts ≠ [])
    (hparts : ∀ part ∈ parts, part ≠ [] ∧ ∀ c ∈ part, isBreak c = false)
    (hkind : ∀ part, kind part → part ≠ [] ∧ ∀ c ∈ part, isBreak c = false) :
    IsSeparated mark kind (String.ofList ([mark].intercalate parts)) ↔
      ∀ part ∈ parts, kind part := by
  refine ⟨fun h => ?_, isSeparated_ofList hne⟩
  have hpieces := (h.exists_pieces isBreak hmark hkind).1
  rwa [String.toList_ofList, pieces_intercalate hmark hne hparts] at hpieces

end Text

namespace Haskell

/-! ## Names -/

/-- A component of a package name: letters and digits, of which one is a letter. -/
structure IsNameComponent (component : List Char) : Prop where
  isAlphanum : ∀ c ∈ component, c.isAlphanum = true
  isAlpha : ∃ c ∈ component, c.isAlpha = true

/-- A package name that the build tool accepts. -/
def IsPackageName (name : String) : Prop :=
  Text.IsSeparated '-' IsNameComponent name

theorem IsNameComponent.ne_nil {component : List Char} (h : IsNameComponent component) :
    component ≠ [] := by
  obtain ⟨c, hc, -⟩ := h.isAlpha
  exact List.ne_nil_of_mem hc

/-- A component without a letter gets one. -/
theorem isNameComponent_packageComponent {part : List Char}
    (h : ∀ c ∈ part, c.isAlphanum = true) : IsNameComponent (packageComponent part) := by
  rw [packageComponent]
  split
  · exact ⟨List.forall_mem_cons.2 ⟨rfl, h⟩, 'v', List.mem_cons_self, rfl⟩
  · rename_i hdigits
    obtain ⟨c, hc, hdigit⟩ : ∃ c ∈ part, c.isDigit = false := by simpa using hdigits
    refine ⟨h, c, hc, ?_⟩
    simpa [Char.isAlphanum, hdigit] using h c hc

/-- A component with a letter is kept. -/
theorem packageComponent_eq_self {component : List Char} (h : IsNameComponent component) :
    packageComponent component = component := by
  obtain ⟨c, hc, halpha⟩ := h.isAlpha
  rw [packageComponent, if_neg]
  intro hdigits
  have hdigit := List.all_eq_true.1 hdigits c hc
  rw [Text.isDigit_eq_false_of_isAlpha halpha] at hdigit
  exact Bool.noConfusion hdigit

def nameParts (text : String) : List (List Char) :=
  Text.pieces (fun c => !c.isAlphanum) text.toList

theorem packageName_eq (text : String) :
    packageName text =
      if nameParts text = [] then "api"
      else String.ofList (['-'].intercalate ((nameParts text).map packageComponent)) := by
  unfold packageName nameParts
  rw [Text.filter_splitBy]
  simp only [List.isEmpty_iff]

theorem isPackageName_packageName (text : String) : IsPackageName (packageName text) := by
  rw [packageName_eq]
  split
  · refine ⟨["api".toList], List.cons_ne_nil _ _, List.forall_mem_singleton.2 ?_, rfl⟩
    have hletters : "api".toList.all Char.isAlphanum = true := by decide
    exact ⟨List.all_eq_true.1 hletters, 'a', List.mem_cons_self, rfl⟩
  · rename_i hne
    refine Text.isSeparated_ofList (by simpa using hne) ?_
    intro component hcomponent
    obtain ⟨part, hpart, rfl⟩ := List.mem_map.1 hcomponent
    refine isNameComponent_packageComponent fun c hc => ?_
    simpa using Text.isBreak_eq_false_of_mem_pieces hpart c hc

/-- The names that are kept are those of the right form. -/
theorem packageName_eq_self_iff {name : String} : packageName name = name ↔ IsPackageName name := by
  refine ⟨fun heq => heq ▸ isPackageName_packageName name, fun h => ?_⟩
  have hpieces := h.exists_pieces (fun c => !c.isAlphanum) rfl
    fun part hpart => ⟨hpart.ne_nil, fun c hc => by simp [hpart.isAlphanum c hc]⟩
  change (∀ part ∈ nameParts name, _) ∧ nameParts name ≠ [] ∧
    name = String.ofList (['-'].intercalate (nameParts name)) at hpieces
  obtain ⟨hparts, hne, hname⟩ := hpieces
  have hkept : (nameParts name).map packageComponent = (nameParts name).map id :=
    List.map_congr_left fun part hpart => packageComponent_eq_self (hparts part hpart)
  rw [packageName_eq, if_neg hne, hkept, List.map_id, ← hname]

/-! ## Versions -/

structure IsNumeral (part : List Char) : Prop where
  ne_nil : part ≠ []
  isDigit : ∀ c ∈ part, c.isDigit = true

/-- There is no point within a number. -/
theorem IsNumeral.isPiece {part : List Char} (h : IsNumeral part) :
    part ≠ [] ∧ ∀ c ∈ part, (c == '.') = false := by
  refine ⟨h.ne_nil, fun c hc => beq_false_of_ne ?_⟩
  rintro rfl
  exact absurd (h.isDigit '.' hc) (by decide)

/-- Numbers in digits with points between them. -/
def IsDotted (version : String) : Prop :=
  Text.IsSeparated '.' IsNumeral version

theorem IsDotted.madeOf {version : String} (h : IsDotted version) :
    Text.MadeOf (fun c => c.isDigit || c == '.') version :=
  Text.IsSeparated.madeOf h rfl fun part hpart c hc => by simp [hpart.isDigit c hc]

/-- A number that the build tool accepts in a version, as it is written there. -/
def IsVersionNumber (part : List Char) : Prop :=
  ∃ n < 10 ^ 9, part = Nat.toDigits 10 n

/-- A version that the build tool accepts. -/
def IsVersion (version : String) : Prop :=
  Text.IsSeparated '.' IsVersionNumber version

/-- A number is written as the build tool accepts it if it is short and has no zero in front. -/
theorem isVersionNumber_iff {part : List Char} (h : IsNumeral part) :
    IsVersionNumber part ↔ part.length ≤ 9 ∧ (part.head? = some '0' → part = ['0']) := by
  constructor
  · rintro ⟨n, hlow, rfl⟩
    refine ⟨(Nat.length_toDigits_le_iff (by omega) (by omega)).2 hlow, fun hzero => ?_⟩
    obtain rfl := Text.eq_zero_of_head?_toDigits hzero
    rfl
  · rintro ⟨hshort, hzero⟩
    obtain ⟨zeros, hzeros⟩ := Text.exists_zeros_append_toDigits h.ne_nil h.isDigit
    cases zeros with
    | zero =>
      rw [List.replicate_zero, List.nil_append] at hzeros
      rw [hzeros] at hshort
      exact ⟨_, (Nat.length_toDigits_le_iff (by omega) (by omega)).1 hshort, hzeros⟩
    | succ zeros =>
      have hpart : part = ['0'] := hzero (by rw [hzeros]; rfl)
      exact ⟨0, by omega, hpart⟩

theorem IsVersionNumber.isNumeral {part : List Char} (h : IsVersionNumber part) :
    IsNumeral part := by
  obtain ⟨n, -, rfl⟩ := h
  exact ⟨Nat.toDigits_ne_nil, Text.isDigit_of_mem_decimal⟩

theorem IsVersion.isDotted {version : String} (h : IsVersion version) : IsDotted version :=
  h.mono fun _ => IsVersionNumber.isNumeral

/-- The digits and points at the start of a version, behind the letter in front of them. -/
def versionLead (version : String) : List Char :=
  ((Text.trimBy Text.isBlank version.toList).dropWhile fun c => c == 'v' || c == 'V').takeWhile
    fun c => c.isDigit || c == '.'

/-- The numbers at the start of a version. -/
def versionParts (version : String) : List (List Char) :=
  Text.pieces (· == '.') (versionLead version)

theorem packageVersion_eq (version : String) :
    packageVersion version =
      if versionParts version = [] then defaultVersion
      else String.ofList (['.'].intercalate (versionParts version)) := by
  unfold packageVersion versionParts versionLead
  dsimp only
  rw [Text.filter_splitBy]
  simp only [List.isEmpty_iff]

theorem isNumeral_of_mem_versionParts {version : String} {part : List Char}
    (h : part ∈ versionParts version) : IsNumeral part := by
  refine ⟨Text.ne_nil_of_mem_pieces h, fun c hc => ?_⟩
  have hpoint : (c == '.') = false := Text.isBreak_eq_false_of_mem_pieces h c hc
  have hnumeric := List.mem_takeWhile_imp
    (Text.mem_of_mem_splitBy (List.mem_of_mem_filter h) hc)
  simpa [hpoint] using hnumeric

theorem isVersion_defaultVersion : IsVersion defaultVersion := by
  refine ⟨[['0'], ['1'], ['0']], List.cons_ne_nil _ _, ?_, rfl⟩
  have hzero : IsVersionNumber ['0'] := ⟨0, by omega, rfl⟩
  exact List.forall_mem_cons.2 ⟨hzero, List.forall_mem_cons.2 ⟨⟨1, by omega, rfl⟩,
    List.forall_mem_singleton.2 hzero⟩⟩

theorem isDotted_packageVersion (version : String) : IsDotted (packageVersion version) := by
  rw [packageVersion_eq]
  split
  · exact isVersion_defaultVersion.isDotted
  · rename_i hne
    exact Text.isSeparated_ofList hne fun part hpart => isNumeral_of_mem_versionParts hpart

/-- Digits and points are neither blank nor the letter in front of a version. -/
theorem numeric_ne {c : Char} (h : (c.isDigit || c == '.') = true) :
    Text.isBlank c = false ∧ (c == 'v' || c == 'V') = false := by
  have hrange : 46 ≤ c.toNat ∧ c.toNat ≤ 57 := by
    obtain hdigit | hpoint := Bool.or_eq_true_iff.1 h
    · rw [Text.isDigit_iff] at hdigit
      omega
    · obtain rfl := eq_of_beq hpoint
      decide
  constructor
  · simp only [Text.isBlank, Text.blankRanges, List.any_cons, List.any_nil, Bool.or_false,
      Bool.or_eq_false_iff, Bool.and_eq_false_iff, decide_eq_false_iff_not]
    omega
  · rw [← Bool.not_eq_true, Bool.or_eq_true, beq_iff_eq, beq_iff_eq]
    rintro (rfl | rfl)
    · exact absurd hrange (by decide)
    · exact absurd hrange (by decide)

/-- A dotted version is looked at as a whole. -/
theorem versionLead_of_isDotted {version : String} (h : IsDotted version) :
    versionLead version = version.toList := by
  have hchars := h.madeOf
  have htrimmed : Text.IsTrimmed Text.isBlank version.toList :=
    ⟨fun c hc => (numeric_ne (hchars c (List.mem_of_head? hc))).1,
      fun c hc => (numeric_ne (hchars c (List.mem_of_getLast? hc))).1⟩
  rw [versionLead, htrimmed.trimBy_eq, Text.dropWhile_eq_self, List.takeWhile_eq_self_iff.2 hchars]
  exact fun c hc => (numeric_ne (hchars c (List.mem_of_head? hc))).2

/-- The versions that are kept are the dotted ones. -/
theorem packageVersion_eq_self_iff {version : String} :
    packageVersion version = version ↔ IsDotted version := by
  refine ⟨fun heq => heq ▸ isDotted_packageVersion version, fun h => ?_⟩
  obtain ⟨-, hne, hversion⟩ := Text.IsSeparated.exists_pieces h (· == '.') rfl
    fun part hpart => hpart.isPiece
  have hparts : versionParts version = Text.pieces (· == '.') version.toList := by
    rw [versionParts, versionLead_of_isDotted h]
  rw [packageVersion_eq, hparts, if_neg hne, ← hversion]

/-- The build tool accepts a version exactly when the numbers in the document are short and have no
zero in front. -/
theorem isVersion_packageVersion_iff (version : String) :
    IsVersion (packageVersion version) ↔ ∀ part ∈ versionParts version,
      part.length ≤ 9 ∧ (part.head? = some '0' → part = ['0']) := by
  rw [packageVersion_eq]
  split
  · rename_i hnil
    refine iff_of_true isVersion_defaultVersion ?_
    rw [hnil]
    exact List.forall_mem_nil _
  · rename_i hne
    have hnumerals := fun part => @isNumeral_of_mem_versionParts version part
    rw [IsVersion, Text.isSeparated_ofList_iff (· == '.') rfl hne]
    · exact forall₂_congr fun part hpart => isVersionNumber_iff (hnumerals part hpart)
    · exact fun part hpart => (hnumerals part hpart).isPiece
    · exact fun part hpart => hpart.isNumeral.isPiece

end Haskell

end ServantGen
