import ServantGen.Proofs.Text.Characters

/-!
# Decimal numerals

A number within the bound is read from its decimal digits, with any zeros in front of them and
perhaps a plus sign in front of these. Nothing else is read as the number.
-/

namespace ServantGen.Text

variable {bound high n : Nat} {c : Char} {cs : List Char}

/-! ## Digits -/

/-- Digits are read as the number that they denote. -/
theorem digitsValue?_eq_some (high : Nat) {cs : List Char} (h : ∀ c ∈ cs, c.isDigit = true) :
    digitsValue? high cs = some (Nat.ofDigitChars 10 cs high) := by
  induction cs generalizing high with
  | nil => rfl
  | cons c cs ih =>
    obtain ⟨hc, hcs⟩ := List.forall_mem_cons.1 h
    simp [digitsValue?, digit?, hc, ih _ hcs, Nat.ofDigitChars]

/-- Only digits are read as a number. -/
theorem isDigit_of_digitsValue?_eq_some (h : digitsValue? high cs = some n) :
    ∀ c ∈ cs, c.isDigit = true := by
  induction cs generalizing high with
  | nil => simp
  | cons c cs ih =>
    obtain ⟨low, hlow, hrest⟩ := Option.bind_eq_some_iff.1 h
    obtain ⟨hc, -⟩ := Option.ite_none_right_eq_some.1 hlow
    exact List.forall_mem_cons.2 ⟨hc, ih hrest⟩

theorem isDigit_of_mem_decimal : ∀ c ∈ Nat.toDigits 10 n, c.isDigit = true := fun _ hc =>
  Nat.isDigit_of_mem_toDigits (by decide) (by decide) hc

theorem toDigits_of_isDigit (h : c.isDigit = true) :
    Nat.toDigits 10 (c.toNat - '0'.toNat) = [c] := by
  rw [isDigit_iff] at h
  have hlow : c.toNat - '0'.toNat < 10 := by
    change c.toNat - 48 < 10
    omega
  rw [Nat.toDigits_of_lt_base hlow, List.singleton_inj]
  refine Char.toNat_inj.1 ?_
  rw [Nat.toNat_digitChar_of_lt_ten hlow]
  change 48 + (c.toNat - 48) = c.toNat
  omega

/-- No zero stands in front of the digits of another number. -/
theorem eq_zero_of_head?_toDigits (h : (Nat.toDigits 10 n).head? = some '0') : n = 0 := by
  induction n using Nat.strongRecOn with
  | ind n ih =>
    by_cases hlow : n < 10
    · rw [Nat.toDigits_of_lt_base hlow, List.head?_cons, Option.some.injEq] at h
      exact Nat.digitChar_eq_zero.1 h
    · rw [Nat.toDigits_of_base_le (by decide) (by omega),
        List.head?_append_of_ne_nil _ Nat.toDigits_ne_nil] at h
      have hhigh := ih (n / 10) (by omega) h
      omega

/-- Digits behind those of a number that is not zero are the digits of a number. -/
theorem toDigits_append (hhigh : 0 < high) (h : ∀ c ∈ cs, c.isDigit = true) :
    Nat.toDigits 10 high ++ cs = Nat.toDigits 10 (Nat.ofDigitChars 10 cs high) := by
  induction cs generalizing high with
  | nil => simp
  | cons c cs ih =>
    obtain ⟨hc, hcs⟩ := List.forall_mem_cons.1 h
    have hlow : c.toNat - '0'.toNat < 10 := by
      rw [isDigit_iff] at hc
      change c.toNat - 48 < 10
      omega
    have hnext : 0 < 10 * high + (c.toNat - '0'.toNat) := by omega
    calc
      Nat.toDigits 10 high ++ c :: cs = (Nat.toDigits 10 high ++ [c]) ++ cs := by simp
      _ = Nat.toDigits 10 (10 * high + (c.toNat - '0'.toNat)) ++ cs := by
        rw [← toDigits_of_isDigit hc, Nat.toDigits_append_toDigits (by decide) hhigh hlow]
      _ = _ := by rw [ih hnext hcs, Nat.ofDigitChars_cons]

/-- Digits are those of the number that they denote, behind zeros. -/
theorem exists_zeros_append_toDigits (hne : cs ≠ []) (h : ∀ c ∈ cs, c.isDigit = true) :
    ∃ zeros, cs = List.replicate zeros '0' ++ Nat.toDigits 10 (Nat.ofDigitChars 10 cs 0) := by
  induction cs with
  | nil => exact absurd rfl hne
  | cons c cs ih =>
    obtain ⟨hc, hcs⟩ := List.forall_mem_cons.1 h
    rw [Nat.ofDigitChars_cons, Nat.mul_zero, Nat.zero_add]
    by_cases hzero : c = '0'
    · subst hzero
      cases cs with
      | nil => exact ⟨0, rfl⟩
      | cons d ds =>
        obtain ⟨zeros, hzeros⟩ := ih (List.cons_ne_nil d ds) hcs
        refine ⟨zeros + 1, ?_⟩
        rw [List.replicate_succ, List.cons_append]
        exact congrArg ('0' :: ·) hzeros
    · have hpos : 0 < c.toNat - '0'.toNat := by
        have hne : c.toNat ≠ 48 := fun heq => hzero (Char.toNat_inj.1 heq)
        rw [isDigit_iff] at hc
        change 0 < c.toNat - 48
        omega
      refine ⟨0, ?_⟩
      rw [← toDigits_append hpos hcs, toDigits_of_isDigit hc]
      rfl

/-! ## Numerals -/

/-- A digit is no plus sign, so no sign is taken away from digits. -/
theorem numeral?_of_isDigit (bound : Nat) (hne : cs ≠ []) (h : ∀ c ∈ cs, c.isDigit = true) :
    numeral? bound cs =
      if Nat.ofDigitChars 10 cs 0 ≤ bound then some (Nat.ofDigitChars 10 cs 0) else none := by
  have hvalue := digitsValue?_eq_some 0 h
  unfold numeral?
  cases cs with
  | nil => exact absurd rfl hne
  | cons c cs =>
    have hsign : c ≠ '+' := by
      rintro rfl
      exact absurd (h '+' List.mem_cons_self) (by decide)
    simp [hsign, hvalue]

theorem numeral?_plus_cons (hsign : cs.head? ≠ some '+') :
    numeral? bound ('+' :: cs) = numeral? bound cs := by
  unfold numeral?
  cases cs with
  | nil => rfl
  | cons c cs =>
    have hc : c ≠ '+' := fun heq => hsign (congrArg some heq)
    simp [hc]

/-- A number in decimal digits is read back when it stays within the bound. -/
theorem numeral?_toDigits (bound n : Nat) :
    numeral? bound (Nat.toDigits 10 n) = if n ≤ bound then some n else none := by
  rw [numeral?_of_isDigit bound Nat.toDigits_ne_nil isDigit_of_mem_decimal,
    Nat.ofDigitChars_toDigits (by decide) (by decide)]

/-- A number that is read stays within the bound. -/
theorem le_of_numeral?_eq_some {bound n : Nat} {cs : List Char} (h : numeral? bound cs = some n) :
    n ≤ bound := by
  obtain ⟨-, h⟩ := Option.ite_none_left_eq_some.1 h
  obtain ⟨value, -, h⟩ := Option.bind_eq_some_iff.1 h
  obtain ⟨hle, hvalue⟩ := Option.ite_none_right_eq_some.1 h
  exact Option.some.inj hvalue ▸ hle

/-- What is read is digits, perhaps with a plus sign in front of them. -/
theorem exists_digits_of_numeral?_eq_some (h : numeral? bound cs = some n) :
    ∃ sign digits, (sign = [] ∨ sign = ['+']) ∧ cs = sign ++ digits ∧ digits ≠ [] ∧
      (∀ c ∈ digits, c.isDigit = true) ∧ Nat.ofDigitChars 10 digits 0 = n := by
  have hread : ∀ digits : List Char,
      (if digits.isEmpty then none
        else (digitsValue? 0 digits).bind fun value => if value ≤ bound then some value else none) =
          some n →
      digits ≠ [] ∧ (∀ c ∈ digits, c.isDigit = true) ∧ Nat.ofDigitChars 10 digits 0 = n := by
    intro digits hread
    obtain ⟨hne, hread⟩ := Option.ite_none_left_eq_some.1 hread
    obtain ⟨value, hvalue, hle⟩ := Option.bind_eq_some_iff.1 hread
    obtain ⟨-, heq⟩ := Option.ite_none_right_eq_some.1 hle
    have hdigits := isDigit_of_digitsValue?_eq_some hvalue
    rw [digitsValue?_eq_some 0 hdigits, heq] at hvalue
    exact ⟨by simpa using hne, hdigits, Option.some.inj hvalue⟩
  unfold numeral? at h
  split at h
  · rename_i rest
    exact ⟨['+'], rest, .inr rfl, rfl, hread rest h⟩
  · exact ⟨[], cs, .inl rfl, rfl, hread cs h⟩

/-- What is read as a number is its digits behind zeros, perhaps with a plus sign. -/
theorem numeral?_eq_some_iff : numeral? bound cs = some n ↔
    n ≤ bound ∧ ∃ sign zeros, (sign = [] ∨ sign = ['+']) ∧
      cs = sign ++ List.replicate zeros '0' ++ Nat.toDigits 10 n := by
  constructor
  · intro h
    refine ⟨le_of_numeral?_eq_some h, ?_⟩
    obtain ⟨sign, digits, hsign, rfl, hne, hdigits, rfl⟩ := exists_digits_of_numeral?_eq_some h
    obtain ⟨zeros, hzeros⟩ := exists_zeros_append_toDigits hne hdigits
    exact ⟨sign, zeros, hsign, by rw [List.append_assoc, ← hzeros]⟩
  · rintro ⟨hle, sign, zeros, hsign, rfl⟩
    have hdigits : ∀ c ∈ List.replicate zeros '0' ++ Nat.toDigits 10 n, c.isDigit = true := by
      refine List.forall_mem_append.2 ⟨fun c hc => ?_, isDigit_of_mem_decimal⟩
      rw [List.eq_of_mem_replicate hc]
      rfl
    have hne : List.replicate zeros '0' ++ Nat.toDigits 10 n ≠ [] := by simp
    have hplain : numeral? bound (List.replicate zeros '0' ++ Nat.toDigits 10 n) = some n := by
      rw [numeral?_of_isDigit bound hne hdigits, Nat.ofDigitChars_append,
        Nat.ofDigitChars_replicate_zero, Nat.mul_zero,
        Nat.ofDigitChars_toDigits (by decide) (by decide), if_pos hle]
    rw [List.append_assoc]
    obtain rfl | rfl := hsign
    · exact hplain
    · refine (numeral?_plus_cons fun hhead => ?_).trans hplain
      exact absurd (hdigits '+' (List.mem_of_head? hhead)) (by decide)

end ServantGen.Text
