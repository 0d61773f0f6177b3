import ServantGen.Proofs.Haskell.Modules

/-!
# The header of a package description

A package description starts with the format, the name and the version of the package. The name is
one that the build tool accepts, and the file is named after it. The version is dotted, and the
build tool accepts it if it accepts the numbers that the document has.
-/

namespace ServantGen.Haskell

structure Header (context : RenderContext) (name version : String) : Prop where
  isName : IsPackageName name
  keepsName : packageName name = name
  /-- A name of the right form is used as it is. -/
  ownName : IsPackageName context.packageName → name = context.packageName
  isDotted : IsDotted version
  keepsVersion : packageVersion version = version
  /-- A dotted version is used as it is. -/
  ownVersion : IsDotted context.api.info.version → version = context.api.info.version
  /-- The build tool accepts the version if it accepts the numbers in the document. -/
  isVersion : IsVersion version ↔ ∀ part ∈ versionParts context.api.info.version,
    part.length ≤ 9 ∧ (part.head? = some '0' → part = ['0'])

theorem header_packageName (context : RenderContext) :
    Header context (packageName context.packageName)
      (packageVersion context.api.info.version) where
  isName := isPackageName_packageName _
  keepsName := packageName_eq_self_iff.2 (isPackageName_packageName _)
  ownName := packageName_eq_self_iff.2
  isDotted := isDotted_packageVersion _
  keepsVersion := packageVersion_eq_self_iff.2 (isDotted_packageVersion _)
  ownVersion := packageVersion_eq_self_iff.2
  isVersion := isVersion_packageVersion_iff _

theorem continues_packageOpening (context : RenderContext) :
    (packageOpening context).Continues (packageDescription context) :=
  ((((Code.Continues.refl _).line _).indent.lines _).dedent.line _).trans
    (continues_packageDescription context)

/-- The name and the version stand on the second and the third line. -/
theorem exists_lines_packageDescription (context : RenderContext) :
    ∃ others, Text.splitOn '\n' ((packageDescription context).text indentStep) =
      "cabal-version:      2.4" :: ("name:               " ++ packageName context.packageName) ::
        ("version:            " ++ packageVersion context.api.info.version) :: others := by
  obtain ⟨others, hlines⟩ := (continues_packageOpening context).exists_splitOn_text
    (isRows_packageOpening context) indentStep
  have hrows : ∃ rest, (packageOpening context).rows indentStep =
      "cabal-version:      2.4" :: ("name:               " ++ packageName context.packageName) ::
        ("version:            " ++ packageVersion context.api.info.version) :: rest := by
    simp [packageOpening]
  obtain ⟨rest, hrest⟩ := hrows
  rw [hrest] at hlines
  exact ⟨rest ++ others, hlines⟩

/-- A package description starts with a name that the build tool accepts, under which its file
stands, and with a dotted version, which the build tool accepts unless the document has a number in
it that the build tool does not accept. -/
theorem packageTemplate_writes_header (context : RenderContext) (scope : RenderScope) :
    ∃ name version text others,
      packageTemplate.path context scope = name ++ ".cabal" ∧
      packageTemplate.render context scope = .ok (.file text []) ∧
      Text.splitOn '\n' text = "cabal-version:      2.4" :: ("name:               " ++ name) ::
        ("version:            " ++ version) :: others ∧
      Header context name version := by
  obtain ⟨others, hlines⟩ := exists_lines_packageDescription context
  exact ⟨packageName context.packageName, packageVersion context.api.info.version,
    (packageDescription context).text indentStep, others, rfl, rfl, hlines,
    header_packageName context⟩

/-- A date with a zero in front of a number is kept as it is, and is no version. -/
theorem date_is_no_version :
    let context : RenderContext := ⟨⟨⟨"Pets", "2024.01.15", none⟩, .empty, []⟩, target⟩
    "version:            2024.01.15" ∈
        Text.splitOn '\n' ((packageDescription context).text indentStep) ∧
      ¬ IsVersion "2024.01.15" := by
  intro context
  have hkept : packageVersion "2024.01.15" = "2024.01.15" := by decide
  constructor
  · obtain ⟨others, hlines⟩ := exists_lines_packageDescription context
    have hversion : "version:            " ++ packageVersion context.api.info.version =
        "version:            2024.01.15" := congrArg ("version:            " ++ ·) hkept
    rw [hlines, hversion]
    simp
  · intro h
    rw [← hkept, isVersion_packageVersion_iff] at h
    have hmonth : ['0', '1'] ∈ versionParts "2024.01.15" := by decide
    exact absurd ((h _ hmonth).2 rfl) (by decide)

end ServantGen.Haskell
