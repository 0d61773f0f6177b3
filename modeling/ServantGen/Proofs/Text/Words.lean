import ServantGen.Proofs.Text.Characters

/-!
# Words and letters

Cutting a name into words loses nothing but the characters that are no letters or digits. Whether
two letters that follow each other stand in one word is decided by the two, by what is between them
and by the character behind them. Small words with a character between them that is no letter or
digit come apart again, and what a casing makes of a name has the first letter that the casing asks
for.
-/

namespace ServantGen.Text

/-! ## Letters -/

def isCapitalOrDigit (c : Char) : Bool :=
  c.isUpper || c.isDigit

theorem toUpper_of_not_isLower {c : Char} (h : ¬c.isLower = true) : c.toUpper = c := by
  rw [isLower_iff] at h
  exact dif_neg h

theorem toNat_toUpper {c : Char} (h : c.isLower = true) : c.toUpper.toNat = c.toNat - 32 := by
  rw [isLower_iff] at h
  have hlower : c.val ≥ 'a'.val ∧ c.val ≤ 'z'.val := h
  have hshift : ('A'.val - 'a'.val).toNat = 4294967264 := rfl
  unfold Char.toUpper
  rw [dif_pos hlower, ← Char.toNat_val, UInt32.toNat_add, Char.toNat_val, hshift]
  omega

theorem isCapitalOrDigit_toUpper {c : Char} (h : c.isAlphanum = true) :
    isCapitalOrDigit c.toUpper = true := by
  rw [isAlphanum_iff] at h
  rw [isCapitalOrDigit, Bool.or_eq_true, isUpper_iff, isDigit_iff]
  by_cases hlower : c.isLower = true
  · rw [toNat_toUpper hlower]
    rw [isLower_iff] at hlower
    omega
  · rw [toUpper_of_not_isLower hlower]
    rw [isLower_iff] at hlower
    omega

theorem toNat_toLower {c : Char} (h : c.isUpper = true) : c.toLower.toNat = c.toNat + 32 := by
  rw [isUpper_iff] at h
  have hupper : c.val ≥ 'A'.val ∧ c.val ≤ 'Z'.val := h
  have hshift : ('a'.val - 'A'.val).toNat = 32 := rfl
  unfold Char.toLower
  rw [dif_pos hupper, ← Char.toNat_val, UInt32.toNat_add, Char.toNat_val, hshift]
  omega

theorem isLower_toLower {c : Char} (h : c.isUpper = true) : c.toLower.isLower = true := by
  rw [isLower_iff, toNat_toLower h]
  rw [isUpper_iff] at h
  omega

-- The library has the next two lemmas, but no module of Mathlib short of the whole brings them.
theorem toLower_toLower (c : Char) : c.toLower.toLower = c.toLower := by
  by_cases hupper : c.isUpper = true
  · have hlower := isLower_toLower hupper
    refine toLower_of_not_isUpper ?_
    rw [isLower_iff] at hlower
    rw [isUpper_iff]
    omega
  · rw [toLower_of_not_isUpper hupper, toLower_of_not_isUpper hupper]

theorem toUpper_toLower (c : Char) : c.toLower.toUpper = c.toUpper := by
  by_cases hupper : c.isUpper = true
  · have hlower : ¬c.isLower = true := by
      rw [isUpper_iff] at hupper
      rw [isLower_iff]
      omega
    rw [toUpper_of_not_isLower hlower, ← Char.toNat_inj, toNat_toUpper (isLower_toLower hupper),
      toNat_toLower hupper]
    omega
  · rw [toLower_of_not_isUpper hupper]

theorem not_isLower_of_isCapitalOrDigit {c : Char} (h : isCapitalOrDigit c = true) :
    c.isLower = false := by
  rw [isCapitalOrDigit, Bool.or_eq_true, isUpper_iff, isDigit_iff] at h
  rw [← Bool.not_eq_true, isLower_iff]
  omega

def isSmallOrDigit (c : Char) : Bool :=
  c.isLower || c.isDigit

theorem isSmallOrDigit_toLower {c : Char} (h : c.isAlphanum = true) :
    isSmallOrDigit c.toLower = true := by
  rw [isSmallOrDigit, Bool.or_eq_true]
  by_cases hupper : c.isUpper = true
  · exact .inl (isLower_toLower hupper)
  · rw [toLower_of_not_isUpper hupper, isLower_iff, isDigit_iff]
    rw [isUpper_iff] at hupper
    rw [isAlphanum_iff] at h
    omega

/-! ## Words -/

theorem ne_nil_of_mem_wordChars (cs : List Char) : ∀ word ∈ wordChars cs, word ≠ [] := by
  have hattach : ∀ (c : Char) (words : List (List Char)), (∀ word ∈ words, word ≠ []) →
      ∀ word ∈ attach c words, word ≠ [] := by
    intro c words hwords
    cases words with
    | nil => simp [attach]
    | cons first rest =>
      exact List.forall_mem_cons.2 ⟨List.cons_ne_nil _ _, (List.forall_mem_cons.1 hwords).2⟩
  fun_induction wordChars cs with
  | case1 => simp
  | case2 c hc => simp
  | case3 c hc => simp
  | case4 c d rest hc hsame ih => exact hattach c _ ih
  | case5 c d rest hc hsame ih => simpa using ih
  | case6 c d rest hc ih => exact ih

/-- Where there is a letter or a digit there is a word. -/
theorem wordChars_ne_nil {cs : List Char} (h : ∃ c ∈ cs, c.isAlphanum = true) :
    wordChars cs ≠ [] := by
  have hattach : ∀ (c : Char) (words : List (List Char)), attach c words ≠ [] := by
    rintro c (_ | _) <;> simp [attach]
  fun_induction wordChars cs with
  | case1 => simp at h
  | case2 c hc => simp
  | case3 c hc => simp [hc] at h
  | case4 c d rest hc hsame ih => exact hattach c _
  | case5 c d rest hc hsame ih => simp
  | case6 c d rest hc ih => exact ih (by simpa [hc] using h)

/-- A word begins with the letter or digit that is cut off first. -/
theorem exists_wordChars_cons {c : Char} (hc : c.isAlphanum = true) (rest : List Char) :
    ∃ word words, wordChars (c :: rest) = (c :: word) :: words := by
  cases rest with
  | nil => exact ⟨[], [], by simp [wordChars, hc]⟩
  | cons d rest =>
    rw [wordChars, if_pos hc]
    split
    · cases wordChars (d :: rest) with
      | nil => exact ⟨[], [], rfl⟩
      | cons word words => exact ⟨word, words, rfl⟩
    · exact ⟨[], _, rfl⟩

theorem wordChars_cons_of_not_isAlphanum {c : Char} (hc : c.isAlphanum = false)
    (rest : List Char) : wordChars (c :: rest) = wordChars rest := by
  cases rest <;> simp [wordChars, hc]

theorem flatten_attach (c : Char) (words : List (List Char)) :
    (attach c words).flatten = c :: words.flatten := by
  cases words <;> rfl

/-- Cutting loses nothing but what is no letter or digit. -/
theorem flatten_wordChars (cs : List Char) :
    (wordChars cs).flatten = cs.filter Char.isAlphanum := by
  fun_induction wordChars cs with
  | case1 => rfl
  | case2 c hc => simp [hc]
  | case3 c hc => simp [hc]
  | case4 c d rest hc hsame ih => rw [flatten_attach, ih, List.filter_cons_of_pos hc]
  | case5 c d rest hc hsame ih =>
    rw [List.flatten_cons, ih, List.filter_cons_of_pos hc, List.singleton_append]
  | case6 c d rest hc ih => rw [ih, List.filter_cons_of_neg hc]

/-! ## Where words end -/

/-- The number of the word that a character stands in, given the number of the character, where
words stand one after the other. -/
def wordIndex : List (List Char) → Nat → Nat
  | [], _ => 0
  | word :: words, k => if k < word.length then 0 else wordIndex words (k - word.length) + 1

section WordIndex

variable {c : Char} {words : List (List Char)}

theorem wordIndex_singleton_succ (k : Nat) :
    wordIndex ([c] :: words) (k + 1) = wordIndex words k + 1 := by
  simp [wordIndex]

theorem wordIndex_attach_succ (hwords : words ≠ []) (k : Nat) :
    wordIndex (attach c words) (k + 1) = wordIndex words k := by
  cases words with
  | nil => exact absurd rfl hwords
  | cons word words => simp [attach, wordIndex]

end WordIndex

/-- A letter in front counts for all that follow and changes nothing between them. -/
theorem wordIndex_wordChars_cons {c : Char} (hc : c.isAlphanum = true) {rest : List Char}
    (hrest : ∃ d ∈ rest, d.isAlphanum = true) (k l : Nat) :
    wordIndex (wordChars (c :: rest)) (k + 1) = wordIndex (wordChars (c :: rest)) (l + 1) ↔
      wordIndex (wordChars rest) k = wordIndex (wordChars rest) l := by
  have hwords := wordChars_ne_nil hrest
  cases rest with
  | nil => simp [wordChars] at hwords
  | cons d rest =>
    rw [wordChars, if_pos hc]
    split
    · rw [wordIndex_attach_succ hwords, wordIndex_attach_succ hwords]
    · rw [wordIndex_singleton_succ, wordIndex_singleton_succ, Nat.add_right_cancel_iff]

/-- Two letters or digits with no others between them stand in different words exactly when there
is anything between them or a word starts at the second. -/
theorem wordIndex_ne_succ_iff (before : List Char) {c d : Char} {gap : List Char}
    (after : List Char) (hc : c.isAlphanum = true) (hd : d.isAlphanum = true)
    (hgap : ∀ g ∈ gap, g.isAlphanum = false) :
    wordIndex (wordChars (before ++ c :: (gap ++ d :: after)))
        (before.filter Char.isAlphanum).length ≠
      wordIndex (wordChars (before ++ c :: (gap ++ d :: after)))
        ((before.filter Char.isAlphanum).length + 1) ↔
    gap ≠ [] ∨ startsWord c d after.head? = true := by
  induction before with
  | nil =>
    obtain ⟨word, words, hwords⟩ := exists_wordChars_cons hd after
    cases gap with
    | nil =>
      rw [List.filter_nil, List.length_nil, List.nil_append, List.nil_append, wordChars, if_pos hc]
      split
      · rename_i hsame
        have hstart : startsWord c d after.head? = false := by simpa [hd] using hsame
        simp [hwords, attach, wordIndex, hstart]
      · rename_i hother
        have hstart : startsWord c d after.head? = true := by simpa [hd] using hother
        simp [hwords, wordIndex, hstart]
    | cons g gap =>
      obtain ⟨hg, -⟩ := List.forall_mem_cons.1 hgap
      simp [wordChars, hc, hg, wordIndex]
  | cons b before ih =>
    rw [List.cons_append]
    cases hb : b.isAlphanum with
    | true =>
      rw [List.filter_cons_of_pos hb, List.length_cons, ne_eq,
        wordIndex_wordChars_cons hb ⟨c, by simp, hc⟩]
      exact ih
    | false =>
      rw [List.filter_cons_of_neg (by simp [hb]), wordChars_cons_of_not_isAlphanum hb]
      exact ih

/-! ## Small words -/

theorem isAlphanum_of_isSmallOrDigit {c : Char} (h : isSmallOrDigit c = true) :
    c.isAlphanum = true := by
  rw [isSmallOrDigit, Bool.or_eq_true, isLower_iff, isDigit_iff] at h
  rw [isAlphanum_iff]
  omega

theorem startsWord_of_isSmallOrDigit {here : Char} (h : isSmallOrDigit here = true)
    (before : Char) (after : Option Char) : startsWord before here after = false := by
  have hupper : here.isUpper = false := by
    rw [isSmallOrDigit, Bool.or_eq_true, isLower_iff, isDigit_iff] at h
    rw [← Bool.not_eq_true, isUpper_iff]
    omega
  rw [startsWord, hupper, Bool.false_and]

/-- A small word ends where the letters and digits do. -/
theorem wordChars_append {word : List Char} (hne : word ≠ [])
    (hword : ∀ c ∈ word, isSmallOrDigit c = true) (rest : List Char)
    (hrest : ∀ c ∈ rest.head?, c.isAlphanum = false) :
    wordChars (word ++ rest) = word :: wordChars rest := by
  induction word with
  | nil => exact absurd rfl hne
  | cons c word ih =>
    obtain ⟨hc, hword⟩ := List.forall_mem_cons.1 hword
    have halphanum := isAlphanum_of_isSmallOrDigit hc
    cases word with
    | nil =>
      cases rest with
      | nil => simp [wordChars, halphanum]
      | cons d rest =>
        have hd := hrest d rfl
        simp [wordChars, halphanum, hd]
    | cons d word =>
      have hd := (List.forall_mem_cons.1 hword).1
      have hsame := startsWord_of_isSmallOrDigit hd c
      have hwords := ih (List.cons_ne_nil _ _) hword
      rw [List.cons_append] at hwords
      rw [List.cons_append, List.cons_append, wordChars, if_pos halphanum, hwords, hsame,
        isAlphanum_of_isSmallOrDigit hd]
      rfl

/-- Small words come apart again at a character that is no letter or digit. -/
theorem wordChars_intercalate {mark : Char} (hmark : mark.isAlphanum = false)
    {words : List (List Char)}
    (hwords : ∀ word ∈ words, word ≠ [] ∧ ∀ c ∈ word, isSmallOrDigit c = true) :
    wordChars ([mark].intercalate words) = words := by
  induction words with
  | nil => rfl
  | cons word words ih =>
    obtain ⟨⟨hne, hword⟩, hrest⟩ := List.forall_mem_cons.1 hwords
    cases words with
    | nil =>
      have halone := wordChars_append hne hword [] (by simp)
      simpa [List.intercalate, wordChars] using halone
    | cons next words =>
      rw [List.intercalate_cons_cons, List.append_assoc, List.singleton_append,
        wordChars_append hne hword _ (by simpa using hmark), wordChars_cons_of_not_isAlphanum hmark,
        ih hrest]

/-! ## First letters -/

/-- The first word begins with a letter or a digit. -/
theorem exists_first_of_wordChars_eq {cs word : List Char} {words : List (List Char)}
    (h : wordChars cs = word :: words) :
    ∃ first rest, word = first :: rest ∧ first.isAlphanum = true := by
  have hword : word ∈ wordChars cs := h ▸ List.mem_cons_self
  obtain ⟨first, rest, rfl⟩ := List.exists_cons_of_ne_nil (ne_nil_of_mem_wordChars cs word hword)
  exact ⟨first, rest, rfl, isAlphanum_of_mem_wordChars cs _ hword first List.mem_cons_self⟩

/-- A name whose words all start with a capital starts with a capital or a digit. -/
theorem isCapitalOrDigit_of_head?_pascal {name : String} {c : Char}
    (h : (Casing.pascal.apply name).toList.head? = some c) : isCapitalOrDigit c = true := by
  rw [Casing.apply, String.toList_ofList] at h
  cases hwords : wordChars name.toList with
  | nil => simp [hwords, Casing.write] at h
  | cons word words =>
    rw [hwords] at h
    obtain ⟨first, rest, rfl, hfirst⟩ := exists_first_of_wordChars_eq hwords
    obtain rfl : first.toUpper = c := Option.some.inj h
    exact isCapitalOrDigit_toUpper hfirst

/-- A name whose first word is small starts with a small letter or a digit. -/
theorem isSmallOrDigit_of_head?_camel {name : String} {c : Char}
    (h : (Casing.camel.apply name).toList.head? = some c) : isSmallOrDigit c = true := by
  rw [Casing.apply, String.toList_ofList] at h
  cases hwords : wordChars name.toList with
  | nil => simp [hwords, Casing.write] at h
  | cons word words =>
    rw [hwords] at h
    obtain ⟨first, rest, rfl, hfirst⟩ := exists_first_of_wordChars_eq hwords
    obtain rfl : first.toLower = c := Option.some.inj h
    exact isSmallOrDigit_toLower hfirst

theorem pascal_ne_empty {name : String} (h : ∃ c ∈ name.toList, c.isAlphanum = true) :
    Casing.pascal.apply name ≠ "" := by
  rw [Casing.apply, ne_eq, ← String.toList_eq_nil_iff, String.toList_ofList]
  cases hwords : wordChars name.toList with
  | nil => exact absurd hwords (wordChars_ne_nil h)
  | cons word words =>
    obtain ⟨first, rest, rfl, -⟩ := exists_first_of_wordChars_eq hwords
    simp [Casing.write, capitalized]

end ServantGen.Text
