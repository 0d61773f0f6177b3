import ServantGen.Haskell.Lexical
import ServantGen.Json.Reader
import ServantGen.Proofs.Haskell.Literals
import ServantGen.Proofs.Text.Characters

/-!
# String literals by the rules of the language

The language has one lexical rule for string literals. Between two quotes stand printable characters
as they are, escapes, and gaps of white space between backslashes. An escape is a letter, the name
or the key of a control character, or a number in one of three bases; its name and its number reach
as far as they can, and the empty escape keeps them from what follows. The rule is read here from
the front of a text. A generated literal is all printable, is read as one literal whatever stands
behind it, and stands for the very text it was made from.
-/

namespace ServantGen.Haskell

/-! ## The rule -/

def letterEscapes : List (String × List Char) :=
  [("a", ['\x07']), ("b", ['\x08']), ("f", ['\x0c']), ("n", ['\n']), ("r", ['\r']), ("t", ['\t']),
   ("v", ['\x0b']), ("\\", ['\\']), ("\"", ['"']), ("'", ['\'']), ("&", [])]

/-- The names of the control characters and of the blank, in the order of their numbers. -/
def asciiNames : List String :=
  ["NUL", "SOH", "STX", "ETX", "EOT", "ENQ", "ACK", "BEL", "BS", "HT", "LF", "VT", "FF", "CR",
   "SO", "SI", "DLE", "DC1", "DC2", "DC3", "DC4", "NAK", "SYN", "ETB", "CAN", "EM", "SUB", "ESC",
   "FS", "GS", "RS", "US", "SP"]

/-- The control characters by their keys, which are sixty-four characters further. -/
def keyEscapes : List (String × List Char) :=
  (List.range 32).map fun code => (String.ofList ['^', Char.ofNat (code + 64)], [Char.ofNat code])

def namedEscapes : List (String × List Char) :=
  letterEscapes ++ (asciiNames.mapIdx fun code name => (name, [Char.ofNat code])) ++
    [("DEL", ['\x7f'])] ++ keyEscapes

/-- Where one name begins another, the longer one stands first. -/
example : namedEscapes.Pairwise fun first second =>
    ¬first.1.toList.isPrefixOf second.1.toList := by decide +kernel

/-- The values of the digits that a text begins with. -/
def digitsIn (base : Nat) : List Char → List Nat
  | [] => []
  | c :: cs =>
    match Json.Reader.hexValue? c with
    | some value => if value < base then value :: digitsIn base cs else []
    | none => []

/-- The character whose number a text begins with, and how many digits it has. -/
def numberEscape? (base : Nat) (cs : List Char) : Option (List Char × Nat) :=
  let digits := digitsIn base cs
  let code := digits.foldl (fun high digit => base * high + digit) 0
  if digits ≠ [] ∧ code.isValidChar then some ([Char.ofNat code], digits.length) else none

/-- The text that a text behind a backslash begins with stands for, and the length of it. -/
def escape? (cs : List Char) : Option (List Char × Nat) :=
  match cs with
  | [] => none
  | c :: rest =>
    if c.isDigit then numberEscape? 10 cs
    else if c = 'o' then (numberEscape? 8 rest).map fun (text, length) => (text, length + 1)
    else if c = 'x' then (numberEscape? 16 rest).map fun (text, length) => (text, length + 1)
    else if Text.isBlank c then
      let gap := cs.takeWhile Text.isBlank
      if cs[gap.length]? = some '\\' then some ([], gap.length + 1) else none
    else
      (namedEscapes.find? fun entry => entry.1.toList.isPrefixOf cs).map fun (name, text) =>
        (text, name.toList.length)

/-- A printable character of those that every encoding has. The language lets printable characters
of other scripts stand as they are, too, which a generated literal never needs. -/
def isPrintable (c : Char) : Bool :=
  ' ' ≤ c && c ≤ '~'

/-- What the inside of a literal stands for, and what stands behind its closing quote; some
characters were read already. -/
def insideString? : Nat → List Char → Option (List Char × List Char)
  | _, [] => none
  | read + 1, _ :: cs => insideString? read cs
  | 0, c :: cs =>
    if c = '"' then some ([], cs)
    else if c = '\\' then do
      let (text, length) ← escape? cs
      let (more, rest) ← insideString? length cs
      return (text ++ more, rest)
    else if isPrintable c then do
      let (more, rest) ← insideString? 0 cs
      return (c :: more, rest)
    else none

/-- The text of the string literal that a text begins with, and what stands behind the literal. -/
def stringLiteral? : List Char → Option (String × List Char)
  | '"' :: cs => (insideString? 0 cs).map fun (text, rest) => (String.ofList text, rest)
  | _ => none

example : stringLiteral? "\"\\SO\\&H\\SOH\\x41\\ \\ 5\"?".toList =
    some ("\x0eH\x01A 5", ['?']) := by cbv

/-! ## Printable characters -/

theorem isPrintable_of_isPlain {c : Char} (h : isPlain c = true) : isPrintable c = true := by
  simp only [isPlain, Bool.and_eq_true] at h
  simp only [isPrintable, Bool.and_eq_true]
  exact h.1.1

theorem isPrintable_of_isDigit {c : Char} (h : c.isDigit = true) : isPrintable c = true := by
  have hrange := Text.isDigit_iff.1 h
  unfold isPrintable
  simp only [Bool.and_eq_true, decide_eq_true_eq, Char.le_def, UInt32.le_iff_toNat_le,
    Char.toNat_val]
  have hblank : ' '.toNat = 32 := rfl
  have htilde : '~'.toNat = 126 := rfl
  omega

/-! ## Reading what was written -/

section Reading

variable {cs digits rest : List Char}

theorem digitsIn_of_not_isDigit (h : rest.head?.any Char.isDigit = false) :
    digitsIn 10 rest = [] := by
  cases rest with
  | nil => rfl
  | cons c rest =>
    have hc : c.isDigit = false := by simpa using h
    unfold digitsIn
    split
    · rename_i value hvalue
      have hten : 10 ≤ value := by
        unfold Json.Reader.hexValue? at hvalue
        simp only [hc, Bool.false_eq_true, if_false] at hvalue
        split at hvalue
        · obtain rfl := Option.some.inj hvalue
          omega
        · split at hvalue
          · obtain rfl := Option.some.inj hvalue
            omega
          · simp at hvalue
      rw [if_neg (by omega)]
    · rfl

/-- Of digits, the number ends where they end. -/
theorem digitsIn_append (hdigits : ∀ c ∈ digits, c.isDigit = true)
    (hrest : rest.head?.any Char.isDigit = false) :
    digitsIn 10 (digits ++ rest) = digits.map fun c => c.toNat - '0'.toNat := by
  induction digits with
  | nil => exact digitsIn_of_not_isDigit hrest
  | cons c digits ih =>
    obtain ⟨hc, hdigits⟩ := List.forall_mem_cons.1 hdigits
    have hvalue : Json.Reader.hexValue? c = some (c.toNat - '0'.toNat) := if_pos hc
    have hless : c.toNat - '0'.toNat < 10 := by
      have hrange := Text.isDigit_iff.1 hc
      have hzero : '0'.toNat = 48 := rfl
      omega
    rw [List.cons_append, digitsIn, hvalue, List.map_cons, ih hdigits]
    exact if_pos hless

/-- The number of a character is read as that character. -/
theorem numberEscape?_toDigits (hrest : rest.head?.any Char.isDigit = false) (c : Char) :
    numberEscape? 10 (Nat.toDigits 10 c.toNat ++ rest) =
      some ([c], (Nat.toDigits 10 c.toNat).length) := by
  have hdigits : ∀ d ∈ Nat.toDigits 10 c.toNat, d.isDigit = true := fun d hd =>
    Nat.isDigit_of_mem_toDigits (by decide) (by decide) hd
  have hcode : (digitsIn 10 (Nat.toDigits 10 c.toNat ++ rest)).foldl
      (fun high digit => 10 * high + digit) 0 = c.toNat := by
    rw [digitsIn_append hdigits hrest, List.foldl_map]
    exact Nat.ofDigitChars_toDigits (by decide) (by decide)
  have hne : digitsIn 10 (Nat.toDigits 10 c.toNat ++ rest) ≠ [] := by
    rw [digitsIn_append hdigits hrest, ne_eq, List.map_eq_nil_iff]
    exact Nat.toDigits_ne_nil
  unfold numberEscape?
  dsimp only
  rw [hcode, if_pos ⟨hne, c.valid⟩, digitsIn_append hdigits hrest, List.length_map,
    Char.ofNat_toNat]

theorem isDigit_head?_toDigits (n : Nat) (rest : List Char) :
    (Nat.toDigits 10 n ++ rest).head?.any Char.isDigit = true := by
  cases hcs : Nat.toDigits 10 n with
  | nil => exact absurd hcs Nat.toDigits_ne_nil
  | cons c digits =>
    have hmem : c ∈ Nat.toDigits 10 n := hcs ▸ List.mem_cons_self
    simpa using Nat.isDigit_of_mem_toDigits (by decide) (by decide) hmem

theorem escape?_of_isDigit (h : cs.head?.any Char.isDigit = true) :
    escape? cs = numberEscape? 10 cs := by
  cases cs with
  | nil => simp at h
  | cons c cs => exact if_pos (by simpa using h)

/-- Characters that were read already are passed over. -/
theorem insideString?_append (first rest : List Char) :
    insideString? first.length (first ++ rest) = insideString? 0 rest := by
  induction first with
  | nil => rfl
  | cons c first ih => exact ih

/-- An escape is read as a whole. -/
theorem insideString?_escape {first text : List Char} (h : escape? (first ++ rest) =
    some (text, first.length)) : insideString? 0 ('\\' :: (first ++ rest)) =
      (insideString? 0 rest).map fun (more, behind) => (text ++ more, behind) := by
  have hquote : '\\' ≠ '"' := by decide
  rw [insideString?, if_neg hquote, if_pos rfl, h]
  simp only [Option.bind_eq_bind, Option.bind_some, Option.pure_def, insideString?_append,
    Option.map_eq_bind, Function.comp_def]

/-- A character is read back from its spelling, if a number is not followed by a digit. -/
theorem insideString?_escapeChar (c : Char)
    (hrest : isNumbered c = true → rest.head?.any Char.isDigit = false) :
    insideString? 0 (escapeChar c ++ rest) =
      (insideString? 0 rest).map fun (more, behind) => (c :: more, behind) := by
  unfold escapeChar
  split
  iterate 5 exact @insideString?_escape rest [_] [_] rfl
  rename_i hquote hslash hfeed htab hreturn
  replace hquote : c ≠ '"' := hquote
  replace hslash : c ≠ '\\' := hslash
  split
  · rename_i hplain
    cases hbehind : insideString? 0 rest <;>
      simp [insideString?, hquote, hslash, isPrintable_of_isPlain hplain, hbehind]
  · rename_i hplain
    have hnumbered : isNumbered c = true := by
      simp [isNumbered, hplain, hquote, hslash, show c ≠ '\n' from hfeed,
        show c ≠ '\t' from htab, show c ≠ '\r' from hreturn]
    refine @insideString?_escape rest (Nat.toDigits 10 c.toNat) [c] ?_
    rw [escape?_of_isDigit (isDigit_head?_toDigits c.toNat rest)]
    exact numberEscape?_toDigits (hrest hnumbered) c

theorem insideString?_literalBody (cs rest : List Char) :
    insideString? 0 (literalBody cs ++ '"' :: rest) = some (cs, rest) := by
  fun_induction literalBody cs with
  | case1 => rfl
  | case2 c =>
    rw [insideString?_escapeChar c fun _ => rfl]
    rfl
  | case3 c d others closing ih =>
    have hclosing : insideString? 0 (closing ++ (literalBody (d :: others) ++ '"' :: rest)) =
        insideString? 0 (literalBody (d :: others) ++ '"' :: rest) := by
      simp only [closing]
      split
      · rw [List.cons_append, @insideString?_escape _ ['&'] [] rfl]
        exact Option.map_id'
      · rfl
    have hapart : isNumbered c = true →
        (closing ++ (literalBody (d :: others) ++ '"' :: rest)).head?.any Char.isDigit = false := by
      intro hnumbered
      cases hd : d.isDigit with
      | true => simp [closing, hnumbered, hd]
      | false => simpa [closing, hd] using LiteralReading.head?_literalBody hd others ('"' :: rest)
    rw [List.append_assoc, List.append_assoc, insideString?_escapeChar c hapart, hclosing, ih]
    rfl

end Reading

/-! ## What is written -/

theorem isPrintable_escapeChar (c : Char) : ∀ d ∈ escapeChar c, isPrintable d = true := by
  unfold escapeChar
  split
  iterate 5 exact List.all_eq_true.1 rfl
  split
  · rename_i hplain
    exact List.forall_mem_singleton.2 (isPrintable_of_isPlain hplain)
  · rw [List.forall_mem_cons]
    exact ⟨by decide, fun d hd =>
      isPrintable_of_isDigit (Nat.isDigit_of_mem_toDigits (by decide) (by decide) hd)⟩

theorem isPrintable_literalBody (cs : List Char) : ∀ c ∈ literalBody cs, isPrintable c = true := by
  fun_induction literalBody cs with
  | case1 => simp
  | case2 c => exact isPrintable_escapeChar c
  | case3 c d rest closing ih =>
    have hclosing : ∀ e ∈ closing, isPrintable e = true := by
      simp only [closing]
      split <;> exact List.all_eq_true.1 rfl
    rw [List.forall_mem_append, List.forall_mem_append]
    exact ⟨⟨isPrintable_escapeChar c, hclosing⟩, ih⟩

/-- Whatever its characters are, a text is written as one string literal in printable characters,
which ends at its own closing quote whatever stands behind it, and stands for that text and for no
other. -/
theorem literal_is_string_literal (text : String) :
    Text.MadeOf isPrintable (literal text) ∧
      (∀ rest, stringLiteral? ((literal text).toList ++ rest) = some (text, rest)) ∧
      ∀ other, literal other = literal text → other = text := by
  have hread : ∀ text rest,
      stringLiteral? ((literal text).toList ++ rest) = some (text, rest) := by
    intro text rest
    have hinside : '"' :: literalBody text.toList ++ ['"'] ++ rest =
        '"' :: (literalBody text.toList ++ '"' :: rest) := by simp
    rw [literal, String.toList_ofList, hinside, stringLiteral?, insideString?_literalBody,
      Option.map_some]
    exact congrArg (fun text => some (text, rest)) String.ofList_toList
  refine ⟨?_, hread text, ?_⟩
  · rw [literal, Text.madeOf_ofList, List.cons_append, List.forall_mem_cons,
      List.forall_mem_append]
    exact ⟨by decide, isPrintable_literalBody text.toList, List.all_eq_true.1 rfl⟩
  · intro other heq
    have hother := hread other []
    rw [heq, hread text []] at hother
    exact (Prod.mk.inj (Option.some.inj hother)).1.symm

end ServantGen.Haskell
