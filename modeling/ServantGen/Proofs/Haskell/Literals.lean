import ServantGen.Haskell.Lexical

/-!
# What literals stand for

A reader of a string literal takes every character for itself but a backslash, which begins a named
escape, a number in decimal digits, or the empty escape that keeps a number and a digit apart.
Every text is read back from its literal, whatever its characters are.
-/

namespace ServantGen.Haskell

/-! ## Reading a literal -/

inductive LiteralReading where
  | inside
  /-- Behind a backslash. -/
  | escape
  /-- In the number of a character. -/
  | number (value : Nat)
  /-- Behind the closing quote. -/
  | closed
  deriving DecidableEq, Repr

/-- The text of an escape by the character behind its backslash. -/
def namedEscape? : Char → Option (List Char)
  | '"' => some ['"']
  | '\\' => some ['\\']
  | 'n' => some ['\n']
  | 't' => some ['\t']
  | 'r' => some ['\r']
  | '&' => some []
  | _ => none

namespace LiteralReading

/-- Read a character outside of escapes. -/
def stepInside (c : Char) : LiteralReading × List Char :=
  if c = '"' then (.closed, [])
  else if c = '\\' then (.escape, [])
  else (.inside, [c])

/-- Read one character, and what text it completes. -/
def step? : LiteralReading → Char → Option (LiteralReading × List Char)
  | .inside, c => some (stepInside c)
  | .escape, c =>
    if c.isDigit then some (.number (Nat.ofDigitChars 10 [c] 0), [])
    else (namedEscape? c).map (.inside, ·)
  | .number value, c =>
    if c.isDigit then some (.number (Nat.ofDigitChars 10 [c] value), [])
    else
      let (next, text) := stepInside c
      some (next, Char.ofNat value :: text)
  | .closed, _ => none

/-- Read characters up to the closing quote, which is the last of them. -/
def read? : LiteralReading → List Char → Option (List Char)
  | .closed, [] => some []
  | _, [] => none
  | reading, c :: cs => do
    let (next, text) ← reading.step? c
    let rest ← next.read? cs
    return text ++ rest

end LiteralReading

/-- The text that a literal stands for. -/
def unquote? (lexeme : String) : Option String :=
  match lexeme.toList with
  | '"' :: cs => (LiteralReading.inside.read? cs).map String.ofList
  | _ => none

/-! ## Reading what was written -/

namespace LiteralReading

variable {cs rest : List Char}

/-- Digits go on with a number. -/
theorem read?_number_append (hdigits : ∀ c ∈ cs, c.isDigit = true) (value : Nat) :
    (number value).read? (cs ++ rest) = (number (Nat.ofDigitChars 10 cs value)).read? rest := by
  induction cs generalizing value with
  | nil => rfl
  | cons c cs ih =>
    obtain ⟨hc, hcs⟩ := List.forall_mem_cons.1 hdigits
    simp [read?, step?, hc, ih hcs, Nat.ofDigitChars_cons]

/-- A number ends before anything but a digit. -/
theorem read?_number (hrest : rest.head?.any Char.isDigit = false) (value : Nat) :
    (number value).read? rest = (inside.read? rest).map (Char.ofNat value :: ·) := by
  cases rest with
  | nil => rfl
  | cons c rest =>
    have hc : c.isDigit = false := by simpa using hrest
    simp only [read?, step?, hc, Option.bind_eq_bind, Option.bind_some, Option.pure_def,
      Option.map_bind, Bool.false_eq_true, if_false]
    rfl

/-- The number of a character. -/
theorem read?_toDigits (hrest : rest.head?.any Char.isDigit = false) (c : Char) :
    escape.read? (Nat.toDigits 10 c.toNat ++ rest) = (inside.read? rest).map (c :: ·) := by
  have hdigits : ∀ d ∈ Nat.toDigits 10 c.toNat, d.isDigit = true := fun d hd =>
    Nat.isDigit_of_mem_toDigits (by decide) (by decide) hd
  have hvalue := @Nat.ofDigitChars_toDigits 10 c.toNat (by decide) (by decide)
  cases hcs : Nat.toDigits 10 c.toNat with
  | nil => exact absurd hcs Nat.toDigits_ne_nil
  | cons first digits =>
    rw [hcs] at hdigits hvalue
    obtain ⟨hfirst, hdigits⟩ := List.forall_mem_cons.1 hdigits
    have hnumber : escape.read? (first :: digits ++ rest) = (number c.toNat).read? rest := by
      have hstep : escape.read? (first :: digits ++ rest) =
          (number (Nat.ofDigitChars 10 [first] 0)).read? (digits ++ rest) := by
        simp [read?, step?, hfirst]
      rw [hstep, read?_number_append hdigits, ← hvalue]
      rfl
    rw [hnumber, read?_number hrest, Char.ofNat_toNat]

/-- A character is read back from its spelling, if a number is not followed by a digit. -/
theorem read?_escapeChar (c : Char)
    (hrest : isNumbered c = true → rest.head?.any Char.isDigit = false) :
    inside.read? (escapeChar c ++ rest) = (inside.read? rest).map (c :: ·) := by
  have hnamed : ∀ letter, letter.isDigit = false → namedEscape? letter = some [c] →
      inside.read? ('\\' :: letter :: rest) = (inside.read? rest).map (c :: ·) := by
    intro letter hletter hescape
    cases hbehind : inside.read? rest <;>
      simp [read?, step?, stepInside, hletter, hescape, hbehind]
  unfold escapeChar
  split
  · exact hnamed '"' (by decide) rfl
  · exact hnamed '\\' (by decide) rfl
  · exact hnamed 'n' (by decide) rfl
  · exact hnamed 't' (by decide) rfl
  · exact hnamed 'r' (by decide) rfl
  · rename_i hquote hslash hfeed htab hreturn
    replace hquote : c ≠ '"' := hquote
    replace hslash : c ≠ '\\' := hslash
    split
    · cases hbehind : inside.read? rest <;>
        simp [read?, step?, stepInside, hquote, hslash, hbehind]
    · rename_i hplain
      have hnumbered : isNumbered c = true := by
        simp [isNumbered, hplain, hquote, hslash, show c ≠ '\n' from hfeed,
          show c ≠ '\t' from htab, show c ≠ '\r' from hreturn]
      have hbackslash : inside.read? ('\\' :: (Nat.toDigits 10 c.toNat ++ rest)) =
          escape.read? (Nat.toDigits 10 c.toNat ++ rest) := by
        simp [read?, step?, stepInside]
      rw [List.cons_append, hbackslash, read?_toDigits (hrest hnumbered)]

/-- A character that is no digit does not start with one. -/
theorem head?_literalBody {d : Char} (h : d.isDigit = false) (rest more : List Char) :
    (literalBody (d :: rest) ++ more).head?.any Char.isDigit = false := by
  have hchar : ∀ more, (escapeChar d ++ more).head?.any Char.isDigit = false := by
    intro more
    unfold escapeChar
    split
    iterate 5 rfl
    split
    · simpa using h
    · rfl
  cases rest with
  | nil => exact hchar more
  | cons next rest =>
    rw [literalBody, List.append_assoc, List.append_assoc]
    exact hchar _

theorem read?_literalBody (cs : List Char) :
    inside.read? (literalBody cs ++ ['"']) = some cs := by
  fun_induction literalBody cs with
  | case1 => rfl
  | case2 c =>
    rw [read?_escapeChar c fun _ => rfl]
    rfl
  | case3 c d rest closing ih =>
    have hclosing : inside.read? (closing ++ (literalBody (d :: rest) ++ ['"'])) =
        inside.read? (literalBody (d :: rest) ++ ['"']) := by
      simp only [closing]
      split
      · simp [read?, step?, stepInside, namedEscape?]
      · rfl
    have hapart : isNumbered c = true →
        (closing ++ (literalBody (d :: rest) ++ ['"'])).head?.any Char.isDigit = false := by
      intro hnumbered
      cases hd : d.isDigit with
      | true => simp [closing, hnumbered, hd]
      | false => simpa [closing, hd] using head?_literalBody hd rest ['"']
    rw [List.append_assoc, List.append_assoc, read?_escapeChar c hapart, hclosing, ih]
    rfl

end LiteralReading

/-- Every text is read back from its literal. -/
@[simp] theorem unquote?_literal (text : String) : unquote? (literal text) = some text := by
  simp [unquote?, literal, LiteralReading.read?_literalBody]

end ServantGen.Haskell
