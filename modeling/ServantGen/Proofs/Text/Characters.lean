import Mathlib.Data.String.Basic
import ServantGen.Proofs.Text.Pieces
import ServantGen.Text.Numeral
import ServantGen.Text.Words

/-!
# The characters that names are made of

Cutting a name into words keeps letters and digits only, and so does every casing that puts
nothing between the words. What is made of few characters has no slash, no blank and no line
feed, so it stays within one part of a path and on one line.
-/

namespace ServantGen.Text

def MadeOf (allowed : Char → Bool) (text : String) : Prop :=
  ∀ c ∈ text.toList, allowed c = true

instance (allowed : Char → Bool) (text : String) : Decidable (MadeOf allowed text) :=
  -- Over all characters there are instances too, but they do not compute.
  List.decidableBAll (fun c => allowed c = true) text.toList

abbrev OnOneLine (text : String) : Prop := MadeOf (· != '\n') text

section MadeOf

variable {allowed other : Char → Bool} {text : String}

@[simp] theorem madeOf_append {left right : String} :
    MadeOf allowed (left ++ right) ↔ MadeOf allowed left ∧ MadeOf allowed right := by
  simp [MadeOf, or_imp, forall_and]

@[simp] theorem madeOf_ofList {cs : List Char} :
    MadeOf allowed (String.ofList cs) ↔ ∀ c ∈ cs, allowed c = true := by
  simp [MadeOf]

theorem MadeOf.ofList {cs : List Char} (h : cs.all allowed = true) :
    MadeOf allowed (String.ofList cs) :=
  madeOf_ofList.2 (List.all_eq_true.1 h)

theorem MadeOf.mono (h : MadeOf allowed text) (hle : ∀ c, allowed c = true → other c = true) :
    MadeOf other text :=
  fun c hc => hle c (h c hc)

/-- A text does not have a character that is not allowed. -/
theorem MadeOf.notMem (h : MadeOf allowed text) {c : Char} (hc : allowed c = false) :
    c ∉ text.toList := by
  intro hmem
  simp [h c hmem] at hc

theorem MadeOf.avoids (h : MadeOf allowed text) {mark : Char} (hmark : allowed mark = false) :
    MadeOf (· != mark) text := by
  intro c hc
  rw [bne_iff_ne]
  rintro rfl
  exact h.notMem hmark hc

/-- A text is not one that has a character that is not allowed. -/
theorem MadeOf.ne (h : MadeOf allowed text) {word : String} {c : Char} (hc : allowed c = false)
    (hmem : c ∈ word.toList) : text ≠ word := by
  rintro rfl
  exact h.notMem hc hmem

end MadeOf

/-- What is put together from allowed characters has no others. -/
theorem forall_mem_intercalate {P : Char → Prop} {glue : List Char} {texts : List (List Char)}
    (hglue : ∀ c ∈ glue, P c) (htexts : ∀ text ∈ texts, ∀ c ∈ text, P c) :
    ∀ c ∈ glue.intercalate texts, P c := by
  induction texts with
  | nil => simp [List.intercalate]
  | cons text rest ih =>
    obtain ⟨htext, hrest⟩ := List.forall_mem_cons.1 htexts
    cases rest with
    | nil => simpa [List.intercalate] using htext
    | cons next rest =>
      rw [List.intercalate_cons_cons, List.forall_mem_append, List.forall_mem_append]
      exact ⟨⟨htext, hglue⟩, ih hrest⟩

theorem madeOf_join {allowed : Char → Bool} {glue : String} {texts : List String}
    (hglue : MadeOf allowed glue) (htexts : ∀ text ∈ texts, MadeOf allowed text) :
    MadeOf allowed (join glue texts) := by
  rw [MadeOf, join, String.toList_intercalate]
  refine forall_mem_intercalate hglue ?_
  intro cs hcs
  obtain ⟨text, htext, rfl⟩ := List.mem_map.1 hcs
  exact htexts text htext

/-! ## Cutting -/

/-- A piece has no characters but those of the text. -/
theorem mem_of_mem_splitBy {isBreak : Char → Bool} {cs piece : List Char}
    (hpiece : piece ∈ splitBy isBreak cs) {c : Char} (hc : c ∈ piece) : c ∈ cs := by
  induction cs generalizing piece with
  | nil =>
    obtain rfl := List.mem_singleton.1 hpiece
    exact hc
  | cons d cs ih =>
    cases hd : isBreak d with
    | true =>
      rw [splitBy_cons_of_break hd, List.mem_cons] at hpiece
      obtain rfl | hpiece := hpiece
      · simp at hc
      · exact List.mem_cons_of_mem _ (ih hpiece hc)
    | false =>
      obtain ⟨first, rest, hcs, hsplit⟩ := exists_splitBy_cons hd cs
      rw [hsplit, List.mem_cons] at hpiece
      obtain rfl | hpiece := hpiece
      · obtain rfl | hc := List.mem_cons.1 hc
        · exact List.mem_cons_self
        · exact List.mem_cons_of_mem _ (ih (hcs ▸ List.mem_cons_self) hc)
      · exact List.mem_cons_of_mem _ (ih (hcs ▸ List.mem_cons_of_mem _ hpiece) hc)

section Cutting

variable {mark : Char} {text before rest : String}

/-- A text without the mark is one piece. -/
theorem splitOn_eq_singleton (h : MadeOf (· != mark) text) : splitOn mark text = [text] := by
  have hsplit : splitBy (· == mark) text.toList = [text.toList] :=
    splitBy_eq_singleton fun c hc => by simpa using h c hc
  simp [splitOn, hsplit]

/-- The first piece ends at the first mark. -/
theorem splitOn_eq_cons (htext : text.toList = before.toList ++ mark :: rest.toList)
    (h : MadeOf (· != mark) before) : splitOn mark text = before :: splitOn mark rest := by
  have hbefore : splitBy (· == mark) before.toList = [before.toList] :=
    splitBy_eq_singleton fun c hc => by simpa using h c hc
  simp [splitOn, htext, splitBy_append_cons, hbefore]

end Cutting

/-! ## Letters and digits -/

theorem isUpper_iff {c : Char} : c.isUpper = true ↔ 65 ≤ c.toNat ∧ c.toNat ≤ 90 := by
  unfold Char.isUpper
  simp [UInt32.le_iff_toNat_le, ← Char.toNat_val]

theorem toLower_of_not_isUpper {c : Char} (h : ¬c.isUpper = true) : c.toLower = c := by
  rw [isUpper_iff] at h
  exact dif_neg h

theorem isLower_iff {c : Char} : c.isLower = true ↔ 97 ≤ c.toNat ∧ c.toNat ≤ 122 := by
  unfold Char.isLower
  simp [UInt32.le_iff_toNat_le, ← Char.toNat_val]

theorem isDigit_iff {c : Char} : c.isDigit = true ↔ 48 ≤ c.toNat ∧ c.toNat ≤ 57 := by
  unfold Char.isDigit
  simp [UInt32.le_iff_toNat_le, ← Char.toNat_val]

theorem isAlphanum_iff {c : Char} : c.isAlphanum = true ↔
    (65 ≤ c.toNat ∧ c.toNat ≤ 90 ∨ 97 ≤ c.toNat ∧ c.toNat ≤ 122) ∨
      48 ≤ c.toNat ∧ c.toNat ≤ 57 := by
  unfold Char.isAlphanum Char.isAlpha Char.isUpper Char.isLower Char.isDigit
  simp [UInt32.le_iff_toNat_le]

theorem isDigit_eq_false_of_isAlpha {c : Char} (h : c.isAlpha = true) : c.isDigit = false := by
  rw [← Bool.not_eq_true, isDigit_iff]
  obtain hupper | hlower := Bool.or_eq_true_iff.1 h
  · rw [isUpper_iff] at hupper
    omega
  · rw [isLower_iff] at hlower
    omega

theorem isAlphanum_of_isDigit {c : Char} (h : c.isDigit = true) : c.isAlphanum = true := by
  unfold Char.isAlphanum
  simp [h]

theorem isAlphanum_toUpper {c : Char} (h : c.isAlphanum = true) :
    c.toUpper.isAlphanum = true := by
  unfold Char.toUpper
  split
  · rename_i hlower
    have hrange : 97 ≤ c.toNat ∧ c.toNat ≤ 122 := hlower
    have hshift : ('A'.val - 'a'.val).toNat = 4294967264 := rfl
    rw [isAlphanum_iff, ← Char.toNat_val, UInt32.toNat_add, Char.toNat_val, hshift]
    omega
  · exact h

theorem isAlphanum_toLower {c : Char} (h : c.isAlphanum = true) :
    c.toLower.isAlphanum = true := by
  unfold Char.toLower
  split
  · rename_i hupper
    have hrange : 65 ≤ c.toNat ∧ c.toNat ≤ 90 := hupper
    have hshift : ('a'.val - 'A'.val).toNat = 32 := rfl
    rw [isAlphanum_iff, ← Char.toNat_val, UInt32.toNat_add, Char.toNat_val, hshift]
    omega
  · exact h

/-! ## Words -/

theorem forall_mem_attach {P : Char → Prop} {c : Char} {words : List (List Char)} (hc : P c)
    (hwords : ∀ word ∈ words, ∀ d ∈ word, P d) : ∀ word ∈ attach c words, ∀ d ∈ word, P d := by
  cases words with
  | nil => simpa [attach] using hc
  | cons first rest =>
    obtain ⟨hfirst, hrest⟩ := List.forall_mem_cons.1 hwords
    exact List.forall_mem_cons.2 ⟨List.forall_mem_cons.2 ⟨hc, hfirst⟩, hrest⟩

/-- Words have letters and digits only. -/
theorem isAlphanum_of_mem_wordChars (cs : List Char) :
    ∀ word ∈ wordChars cs, ∀ c ∈ word, c.isAlphanum = true := by
  fun_induction wordChars cs with
  | case1 => simp
  | case2 c hc => simpa using hc
  | case3 c hc => simp
  | case4 c d rest hc hsame ih => exact forall_mem_attach hc ih
  | case5 c d rest hc hsame ih => simpa [hc] using ih
  | case6 c d rest hc ih => exact ih

theorem isAlphanum_of_mem_capitalized {word : List Char} (h : ∀ c ∈ word, c.isAlphanum = true) :
    ∀ c ∈ capitalized word, c.isAlphanum = true := by
  cases word with
  | nil => simp [capitalized]
  | cons first rest =>
    obtain ⟨hfirst, hrest⟩ := List.forall_mem_cons.1 h
    refine List.forall_mem_cons.2 ⟨isAlphanum_toUpper hfirst, ?_⟩
    intro c hc
    obtain ⟨d, hd, rfl⟩ := List.mem_map.1 hc
    exact isAlphanum_toLower (hrest d hd)

/-- A name whose words all start with a capital has letters and digits only. -/
theorem madeOf_pascal (name : String) :
    MadeOf Char.isAlphanum (Casing.pascal.apply name) := by
  rw [Casing.apply, madeOf_ofList]
  intro c hc
  obtain ⟨word, hword, hc⟩ := List.mem_flatten.1 hc
  obtain ⟨own, hown, rfl⟩ := List.mem_map.1 hword
  exact isAlphanum_of_mem_capitalized (isAlphanum_of_mem_wordChars _ own hown) c hc

/-- So has a name whose first word is small. -/
theorem madeOf_camel (name : String) :
    MadeOf Char.isAlphanum (Casing.camel.apply name) := by
  rw [Casing.apply, madeOf_ofList]
  have hwords := isAlphanum_of_mem_wordChars name.toList
  cases hcs : wordChars name.toList with
  | nil => simp [Casing.write]
  | cons first rest =>
    rw [hcs] at hwords
    obtain ⟨hfirst, hrest⟩ := List.forall_mem_cons.1 hwords
    refine List.forall_mem_append.2 ⟨?_, ?_⟩
    · rw [List.forall_mem_map]
      exact fun c hc => isAlphanum_toLower (hfirst c hc)
    · intro c hc
      obtain ⟨word, hword, hc⟩ := List.mem_flatten.1 hc
      obtain ⟨own, hown, rfl⟩ := List.mem_map.1 hword
      exact isAlphanum_of_mem_capitalized (hrest own hown) c hc

theorem madeOf_decimal (n : Nat) : MadeOf Char.isDigit (decimal n) := by
  rw [decimal, madeOf_ofList]
  intro c hc
  exact Nat.isDigit_of_mem_toDigits (by omega) (by omega) hc

end ServantGen.Text
