import ServantGen.Proofs.Haskell.Names

/-!
# What comments say

The text of a comment is tidy: one line of words with single blanks between them, in which no block
comment opens or closes. Making a text tidy loses nothing but blanks, and leaves a tidy text as it
is.

A line is spaced when no piece between its blanks is empty. That is what a line of words has, and
all that is needed for the line to be put together from its words again. Parting two characters
puts blanks between characters that are none, so it keeps a line spaced.
-/

namespace ServantGen

namespace Haskell

open Text (isBlank splitBy pieces wordsOf)

variable {left right : Char} {cs line : List Char}

/-! ## Pairs of neighbours -/

/-- `left` never stands right before `right`. -/
def NeverBeside (left right : Char) (text : List Char) : Prop :=
  ¬ [left, right] <:+: text

section NeverBeside

variable {left right c d : Char} {text : List Char}

theorem neverBeside_nil : NeverBeside left right [] := by
  simp [NeverBeside]

theorem neverBeside_singleton : NeverBeside left right [c] :=
  fun hinfix => absurd hinfix.length_le (by simp)

theorem neverBeside_cons_cons :
    NeverBeside left right (c :: d :: text) ↔
      ¬(c = left ∧ d = right) ∧ NeverBeside left right (d :: text) := by
  rw [NeverBeside, NeverBeside, List.infix_cons_iff, not_or]
  simp [eq_comm]

theorem NeverBeside.tail (h : NeverBeside left right (c :: text)) : NeverBeside left right text :=
  fun hinfix => h (List.infix_cons hinfix)

end NeverBeside

/-! ## Spacing -/

/-- Characters with single blanks between them and no other blank character. -/
structure IsSpaced (line : List Char) : Prop where
  blank : ∀ c ∈ line, isBlank c = true → c = ' '
  single : NeverBeside ' ' ' ' line
  start : line.head? ≠ some ' '
  last : line.getLast? ≠ some ' '

/-- Words with single blanks between them are spaced. -/
theorem isSpaced_intercalate {words : List (List Char)}
    (hwords : ∀ word ∈ words, word ≠ [] ∧ ∀ c ∈ word, isBlank c = false) :
    IsSpaced ([' '].intercalate words) := by
  by_cases hne : words = []
  · subst hne
    exact ⟨by simp [List.intercalate], neverBeside_nil, by simp [List.intercalate],
      by simp [List.intercalate]⟩
  have hsplit : splitBy isBlank ([' '].intercalate words) = words :=
    Text.splitBy_intercalate (by decide) hne fun word hword => (hwords word hword).2
  have hnil : [] ∉ splitBy isBlank ([' '].intercalate words) := by
    rw [hsplit]
    exact fun hmem => (hwords [] hmem).1 rfl
  refine ⟨Text.forall_mem_intercalate (by simp) ?_, ?_, ?_, ?_⟩
  · intro word hword c hc hblank
    simp [(hwords word hword).2 c hc] at hblank
  · rintro ⟨before, after, heq⟩
    have heq' : before ++ ' ' :: ' ' :: after = [' '].intercalate words := by simpa using heq
    apply hnil
    rw [← heq', Text.splitBy_append_cons (by decide), Text.splitBy_cons_of_break (by decide)]
    simp
  · intro hhead
    obtain ⟨after, heq⟩ := List.head?_eq_some_iff.1 hhead
    apply hnil
    rw [heq, Text.splitBy_cons_of_break (by decide)]
    exact List.mem_cons_self
  · intro hlast
    obtain ⟨before, heq⟩ := List.getLast?_eq_some_iff.1 hlast
    apply hnil
    rw [heq, Text.splitBy_append_cons (by decide)]
    simp [splitBy]

theorem IsSpaced.isBlank_head {c : Char} {rest : List Char} (h : IsSpaced (c :: rest)) :
    isBlank c = false := by
  rw [← Bool.not_eq_true]
  exact fun hblank => h.start (congrArg some (h.blank c List.mem_cons_self hblank))

/-- A spaced line goes on behind a character that no blank follows as it began. -/
theorem IsSpaced.tail {c d : Char} {rest : List Char} (h : IsSpaced (c :: d :: rest))
    (hd : isBlank d = false) : IsSpaced (d :: rest) where
  blank := (List.forall_mem_cons.1 h.blank).2
  single := h.single.tail
  start := by
    intro hhead
    obtain rfl := Option.some.inj hhead
    exact absurd hd (by decide)
  last := h.last

/-- A blank stands between two characters, so the line goes on behind it as it began. -/
theorem IsSpaced.behind_blank {c : Char} {rest : List Char} (h : IsSpaced (c :: ' ' :: rest)) :
    rest ≠ [] ∧ IsSpaced rest := by
  have hlast : (' ' :: rest).getLast? ≠ some ' ' := h.last
  have hrest : rest ≠ [] := by
    rintro rfl
    exact hlast rfl
  refine ⟨hrest, (List.forall_mem_cons.1 (List.forall_mem_cons.1 h.blank).2).2,
    h.single.tail.tail, ?_, ?_⟩
  · intro hhead
    obtain ⟨more, rfl⟩ := List.head?_eq_some_iff.1 hhead
    exact (neverBeside_cons_cons.1 h.single.tail).1 ⟨rfl, rfl⟩
  · rwa [List.getLast?_cons_of_ne_nil hrest] at hlast

/-- No piece between the blanks of a spaced line is empty. -/
theorem IsSpaced.nil_notMem_splitBy (h : IsSpaced line) (hne : line ≠ []) :
    [] ∉ splitBy isBlank line := by
  induction line using List.twoStepInduction with
  | nil => exact absurd rfl hne
  | singleton c =>
    rw [Text.splitBy_eq_singleton (by simpa using h.isBlank_head)]
    simp
  | cons_cons c d rest ihrest ih =>
    have hc := h.isBlank_head
    cases hd : isBlank d with
    | true =>
      obtain rfl := h.blank d (by simp) hd
      obtain ⟨hrest, hspaced⟩ := h.behind_blank
      obtain ⟨piece, pieces, hpieces, hsplit⟩ := Text.exists_splitBy_cons hc (' ' :: rest)
      rw [Text.splitBy_cons_of_break hd, List.cons.injEq] at hpieces
      obtain ⟨rfl, rfl⟩ := hpieces
      rw [hsplit]
      simpa using ihrest hspaced hrest
    | false =>
      obtain ⟨piece, pieces, hpieces, hsplit⟩ := Text.exists_splitBy_cons hc (d :: rest)
      have hnil := ih d (h.tail hd) (List.cons_ne_nil _ _)
      rw [hpieces, List.mem_cons, not_or] at hnil
      rw [hsplit]
      simpa using hnil.2

/-- A spaced line is its words with single blanks between them. -/
theorem IsSpaced.intercalate_wordsOf (h : IsSpaced line) :
    [' '].intercalate (wordsOf line) = line := by
  by_cases hne : line = []
  · subst hne
    rfl
  have hall : wordsOf line = splitBy isBlank line := by
    rw [wordsOf, List.filter_eq_self]
    intro piece hpiece
    cases piece with
    | nil => exact absurd hpiece (h.nil_notMem_splitBy hne)
    | cons c piece => rfl
  rw [hall, Text.intercalate_splitBy h.blank]

/-! ## Parting -/

theorem head?_part (left right : Char) (cs : List Char) :
    (part left right cs).head? = cs.head? := by
  fun_cases part left right cs <;> rfl

theorem getLast?_part (left right : Char) (cs : List Char) :
    (part left right cs).getLast? = cs.getLast? := by
  have hne : ∀ d rest, part left right (d :: rest) ≠ [] := by
    intro d rest heq
    simpa [heq] using head?_part left right (d :: rest)
  fun_induction part left right cs with
  | case1 c d rest hpair ih =>
    rw [List.getLast?_cons_of_ne_nil (by simp), List.getLast?_cons_of_ne_nil (hne d rest), ih]
    rfl
  | case2 c d rest hpair ih =>
    rw [List.getLast?_cons_of_ne_nil (hne d rest), ih]
    rfl
  | case3 cs hshort => rfl

/-- Parting adds blanks only. -/
theorem filter_part (left right : Char) (cs : List Char) :
    (part left right cs).filter (!isBlank ·) = cs.filter (!isBlank ·) := by
  have hblank : isBlank ' ' = true := by decide
  fun_induction part left right cs with
  | case1 c d rest hpair ih => simp [List.filter_cons, hblank] at ih ⊢; simp [ih]
  | case2 c d rest hpair ih => simp [List.filter_cons] at ih ⊢; simp [ih]
  | case3 cs hshort => rfl

theorem exists_part_cons (left right d : Char) (rest : List Char) :
    ∃ parted, part left right (d :: rest) = d :: parted :=
  List.head?_eq_some_iff.1 (head?_part left right (d :: rest))

/-- Parted characters are never side by side. -/
theorem neverBeside_part_self (hleft : left ≠ ' ') (hright : right ≠ ' ') (cs : List Char) :
    NeverBeside left right (part left right cs) := by
  fun_induction part left right cs with
  | case1 c d rest hpair ih =>
    obtain ⟨parted, hparted⟩ := exists_part_cons left right d rest
    rw [hparted] at ih ⊢
    refine neverBeside_cons_cons.2 ⟨fun h => hright h.2.symm, ?_⟩
    exact neverBeside_cons_cons.2 ⟨fun h => hleft h.1.symm, ih⟩
  | case2 c d rest hpair ih =>
    obtain ⟨parted, hparted⟩ := exists_part_cons left right d rest
    rw [hparted] at ih ⊢
    exact neverBeside_cons_cons.2 ⟨hpair, ih⟩
  | case3 cs hshort =>
    rcases cs with _ | ⟨c, _ | ⟨d, rest⟩⟩
    · exact neverBeside_nil
    · exact neverBeside_singleton
    · exact absurd rfl (hshort c d rest)

/-- Parting brings no characters together, except with the blank that it adds. -/
theorem neverBeside_part {before after : Char} (h : NeverBeside before after cs)
    (hleft : ¬(left = before ∧ ' ' = after)) (hright : ¬(' ' = before ∧ right = after)) :
    NeverBeside before after (part left right cs) := by
  fun_induction part left right cs with
  | case1 c d rest hpair ih =>
    obtain ⟨rfl, rfl⟩ := hpair
    obtain ⟨parted, hparted⟩ := exists_part_cons c d d rest
    have hrest := ih h.tail
    rw [hparted] at hrest ⊢
    exact neverBeside_cons_cons.2 ⟨hleft, neverBeside_cons_cons.2 ⟨hright, hrest⟩⟩
  | case2 c d rest hpair ih =>
    obtain ⟨parted, hparted⟩ := exists_part_cons left right d rest
    have hrest := ih h.tail
    rw [hparted] at hrest ⊢
    exact neverBeside_cons_cons.2 ⟨(neverBeside_cons_cons.1 h).1, hrest⟩
  | case3 cs hshort => exact h

/-- Where no two characters are to be parted, the text stays as it is. -/
theorem NeverBeside.part_eq_self (h : NeverBeside left right cs) : part left right cs = cs := by
  fun_induction part left right cs with
  | case1 c d rest hpair ih => exact absurd hpair (neverBeside_cons_cons.1 h).1
  | case2 c d rest hpair ih => rw [ih h.tail]
  | case3 cs hshort => rfl

/-- Parting characters that are no blanks keeps a line spaced. -/
theorem isSpaced_part (h : IsSpaced line) (hleft : left ≠ ' ') (hright : right ≠ ' ') :
    IsSpaced (part left right line) where
  blank := forall_mem_part (by simp) left right line h.blank
  single := neverBeside_part h.single (fun heq => hleft heq.1) (fun heq => hright heq.2)
  start := by rw [head?_part]; exact h.start
  last := by rw [getLast?_part]; exact h.last

/-! ## The text of a comment -/

/-- A spaced line in which no block comment opens or closes. -/
structure IsTidy (line : List Char) : Prop extends IsSpaced line where
  opening : NeverBeside '{' '-' line
  closing : NeverBeside '-' '}' line

theorem isTidy_commentText (text : String) : IsTidy (commentText text).toList := by
  have hwords : IsSpaced ([' '].intercalate (wordsOf text.toList)) := by
    refine isSpaced_intercalate fun word hword => ?_
    rw [wordsOf, Text.filter_splitBy] at hword
    exact ⟨Text.ne_nil_of_mem_pieces hword, Text.isBreak_eq_false_of_mem_pieces hword⟩
  have hparted := isSpaced_part hwords (show '{' ≠ ' ' by decide) (show '-' ≠ ' ' by decide)
  have hopening : NeverBeside '{' '-' (part '{' '-' ([' '].intercalate (wordsOf text.toList))) :=
    neverBeside_part_self (by decide) (by decide) _
  rw [commentText, String.toList_ofList]
  exact {
    toIsSpaced := isSpaced_part hparted (by decide) (by decide)
    opening := neverBeside_part hopening (by decide) (by decide)
    closing := neverBeside_part_self (by decide) (by decide) _ }

theorem commentText_eq_self_iff {text : String} :
    commentText text = text ↔ IsTidy text.toList := by
  refine ⟨fun heq => heq ▸ isTidy_commentText text, fun h => ?_⟩
  rw [commentText, h.intercalate_wordsOf]
  simp only [h.opening.part_eq_self, h.closing.part_eq_self, String.ofList_toList]

theorem filter_commentText (text : String) :
    (commentText text).toList.filter (!isBlank ·) = text.toList.filter (!isBlank ·) := by
  rw [commentText, String.toList_ofList, filter_part, filter_part, wordsOf, Text.filter_splitBy,
    Text.filter_intercalate (by decide) fun piece => Text.isBreak_eq_false_of_mem_pieces,
    Text.flatten_pieces]

/-- The text of a comment is tidy and has the characters of the text that are not blank, in order.
A text is the text of a comment as it stands exactly when it is tidy, so nothing changes when a
comment is made of a comment's text. -/
theorem commentText_tidies (text : String) :
    IsTidy (commentText text).toList ∧
    (commentText text).toList.filter (!isBlank ·) = text.toList.filter (!isBlank ·) ∧
    (commentText text = text ↔ IsTidy text.toList) ∧
    commentText (commentText text) = commentText text :=
  ⟨isTidy_commentText text, filter_commentText text, commentText_eq_self_iff,
    commentText_eq_self_iff.2 (isTidy_commentText text)⟩

end Haskell

end ServantGen
