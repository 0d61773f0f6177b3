import Mathlib.Data.List.Induction
import Mathlib.Data.List.TakeWhile
import ServantGen.Text.Split

/-!
# Laws of cutting text

Cutting at marks never loses anything but the marks: no piece holds one, and cutting two texts
joined by a mark cuts each of them. The pieces that are not empty do not depend on marks at
either end, so trimming a text first leaves them as they are. Taking a lead or a tail away is
the inverse of putting it there.
-/

namespace ServantGen

/-- Every list but the first has the mark in front of it. -/
theorem intercalate_cons {α : Type} (mark : α) (first : List α) (rest : List (List α)) :
    [mark].intercalate (first :: rest) = first ++ rest.flatMap (mark :: ·) := by
  induction rest generalizing first with
  | nil => simp [List.intercalate]
  | cons next rest ih =>
    rw [List.intercalate_cons_cons, ih]
    simp

namespace Text

variable {isBreak : Char → Bool}

theorem splitBy_cons_of_break {c : Char} (h : isBreak c = true) (cs : List Char) :
    splitBy isBreak (c :: cs) = [] :: splitBy isBreak cs := by
  simp [splitBy, h]

/-- A character that is no mark joins the first piece of what follows it. -/
theorem exists_splitBy_cons {c : Char} (h : isBreak c = false) (cs : List Char) :
    ∃ piece pieces, splitBy isBreak cs = piece :: pieces ∧
      splitBy isBreak (c :: cs) = (c :: piece) :: pieces := by
  cases hcs : splitBy isBreak cs with
  | nil => exact absurd hcs (splitBy_ne_nil isBreak cs)
  | cons piece pieces => exact ⟨piece, pieces, rfl, by simp [splitBy, h, hcs]⟩

/-- No piece holds a mark. -/
theorem isBreak_eq_false_of_mem_splitBy {cs piece : List Char}
    (hpiece : piece ∈ splitBy isBreak cs) {c : Char} (hc : c ∈ piece) : isBreak c = false := by
  induction cs generalizing piece with
  | nil =>
    simp only [splitBy, List.mem_singleton] at hpiece
    subst hpiece
    simp at hc
  | cons d cs ih =>
    cases hd : isBreak d with
    | true =>
      rw [splitBy_cons_of_break hd, List.mem_cons] at hpiece
      obtain rfl | hpiece := hpiece
      · simp at hc
      · exact ih hpiece hc
    | false =>
      obtain ⟨first, rest, hcs, hsplit⟩ := exists_splitBy_cons hd cs
      rw [hsplit, List.mem_cons] at hpiece
      obtain rfl | hpiece := hpiece
      · obtain rfl | hc := List.mem_cons.1 hc
        · exact hd
        · exact ih (hcs ▸ List.mem_cons_self) hc
      · exact ih (hcs ▸ List.mem_cons_of_mem _ hpiece) hc

/-- A text without marks is one piece. -/
theorem splitBy_eq_singleton {cs : List Char} (h : ∀ c ∈ cs, isBreak c = false) :
    splitBy isBreak cs = [cs] := by
  induction cs with
  | nil => rfl
  | cons c cs ih =>
    obtain ⟨hc, hcs⟩ := List.forall_mem_cons.1 h
    obtain ⟨piece, pieces, hpieces, hsplit⟩ := exists_splitBy_cons hc cs
    rw [ih hcs, List.cons.injEq] at hpieces
    obtain ⟨rfl, rfl⟩ := hpieces
    exact hsplit

/-- Two texts with a mark between them are cut one after the other. -/
theorem splitBy_append_cons {mark : Char} (h : isBreak mark = true) (before after : List Char) :
    splitBy isBreak (before ++ mark :: after) =
      splitBy isBreak before ++ splitBy isBreak after := by
  induction before with
  | nil => exact splitBy_cons_of_break h after
  | cons c before ih =>
    cases hc : isBreak c with
    | true => simp only [List.cons_append, splitBy_cons_of_break hc, ih]
    | false =>
      obtain ⟨piece, pieces, hpieces, hsplit⟩ := exists_splitBy_cons hc before
      simp only [List.cons_append, hsplit]
      rw [splitBy, ih, hpieces]
      simp [hc]

/-- Parts without marks come apart again when there is a mark between them. -/
theorem splitBy_intercalate {mark : Char} (h : isBreak mark = true) {parts : List (List Char)}
    (hne : parts ≠ []) (hparts : ∀ part ∈ parts, ∀ c ∈ part, isBreak c = false) :
    splitBy isBreak ([mark].intercalate parts) = parts := by
  induction parts with
  | nil => exact absurd rfl hne
  | cons part parts ih =>
    obtain ⟨hpart, hrest⟩ := List.forall_mem_cons.1 hparts
    cases parts with
    | nil => simpa [List.intercalate] using splitBy_eq_singleton hpart
    | cons next rest =>
      rw [List.intercalate_cons_cons, List.append_assoc, List.singleton_append,
        splitBy_append_cons h, splitBy_eq_singleton hpart, ih (List.cons_ne_nil _ _) hrest]
      rfl

/-- Cutting loses nothing but the marks. -/
theorem flatten_splitBy (cs : List Char) :
    (splitBy isBreak cs).flatten = cs.filter (!isBreak ·) := by
  induction cs with
  | nil => rfl
  | cons c cs ih =>
    cases hc : isBreak c with
    | true => simp [splitBy_cons_of_break hc, hc, ih]
    | false =>
      obtain ⟨piece, pieces, hcs, hsplit⟩ := exists_splitBy_cons hc cs
      rw [hcs, List.flatten_cons] at ih
      simp [hsplit, hc, ih]

/-- What is left of a text without its marks are the parts that it was put together from. -/
theorem filter_intercalate {mark : Char} (h : isBreak mark = true) {parts : List (List Char)}
    (hparts : ∀ part ∈ parts, ∀ c ∈ part, isBreak c = false) :
    ([mark].intercalate parts).filter (!isBreak ·) = parts.flatten := by
  cases parts with
  | nil => rfl
  | cons part parts => rw [← flatten_splitBy, splitBy_intercalate h (List.cons_ne_nil _ _) hparts]

/-- Where all marks are one character, a text is its pieces with this character between them. -/
theorem intercalate_splitBy {mark : Char} {cs : List Char}
    (h : ∀ c ∈ cs, isBreak c = true → c = mark) :
    [mark].intercalate (splitBy isBreak cs) = cs := by
  induction cs with
  | nil => rfl
  | cons c cs ih =>
    obtain ⟨hc, hcs⟩ := List.forall_mem_cons.1 h
    have hrest := ih hcs
    cases hbreak : isBreak c with
    | true =>
      obtain rfl := hc hbreak
      obtain ⟨piece, pieces, hpieces⟩ := List.exists_cons_of_ne_nil (splitBy_ne_nil isBreak cs)
      rw [splitBy_cons_of_break hbreak, hpieces, List.intercalate_cons_cons, ← hpieces, hrest]
      rfl
    | false =>
      obtain ⟨piece, pieces, hpieces, hsplit⟩ := exists_splitBy_cons hbreak cs
      rw [hpieces, intercalate_cons] at hrest
      rw [hsplit, intercalate_cons, List.cons_append, hrest]

/-! ## Pieces that are not empty -/

/-- The pieces between marks that are not empty. -/
def pieces (isBreak : Char → Bool) (cs : List Char) : List (List Char) :=
  (splitBy isBreak cs).filter (· ≠ [])

@[simp] theorem pieces_nil : pieces isBreak [] = [] := by
  simp [pieces, splitBy]

theorem filter_splitBy (cs : List Char) :
    (splitBy isBreak cs).filter (!·.isEmpty) = pieces isBreak cs := by
  refine List.filter_congr fun piece _ => ?_
  cases piece <;> simp

theorem ne_nil_of_mem_pieces {cs piece : List Char} (h : piece ∈ pieces isBreak cs) :
    piece ≠ [] := by
  simpa using (List.mem_filter.1 h).2

theorem isBreak_eq_false_of_mem_pieces {cs piece : List Char} (h : piece ∈ pieces isBreak cs) :
    ∀ c ∈ piece, isBreak c = false :=
  fun _ hc => isBreak_eq_false_of_mem_splitBy (List.mem_filter.1 h).1 hc

theorem flatten_pieces (cs : List Char) :
    (pieces isBreak cs).flatten = cs.filter (!isBreak ·) := by
  rw [← flatten_splitBy, pieces]
  exact List.flatten_filter_ne_nil

theorem pieces_intercalate {mark : Char} (h : isBreak mark = true) {parts : List (List Char)}
    (hne : parts ≠ []) (hparts : ∀ part ∈ parts, part ≠ [] ∧ ∀ c ∈ part, isBreak c = false) :
    pieces isBreak ([mark].intercalate parts) = parts := by
  rw [pieces, splitBy_intercalate h hne fun part hpart => (hparts part hpart).2,
    List.filter_eq_self.2]
  intro part hpart
  simpa using (hparts part hpart).1

theorem pieces_cons_of_break {c : Char} (h : isBreak c = true) (cs : List Char) :
    pieces isBreak (c :: cs) = pieces isBreak cs := by
  simp [pieces, splitBy_cons_of_break h]

theorem pieces_append_cons {mark : Char} (h : isBreak mark = true) (before after : List Char) :
    pieces isBreak (before ++ mark :: after) = pieces isBreak before ++ pieces isBreak after := by
  simp [pieces, splitBy_append_cons h]

theorem pieces_of_no_break {cs : List Char} (h : ∀ c ∈ cs, isBreak c = false) (hne : cs ≠ []) :
    pieces isBreak cs = [cs] := by
  simp [pieces, splitBy_eq_singleton h, hne]

@[simp] theorem pieces_dropWhile (cs : List Char) :
    pieces isBreak (cs.dropWhile isBreak) = pieces isBreak cs := by
  induction cs with
  | nil => rfl
  | cons c cs ih =>
    cases hc : isBreak c with
    | true => rw [List.dropWhile_cons_of_pos hc, ih, pieces_cons_of_break hc]
    | false => rw [List.dropWhile_cons_of_neg (by simp [hc])]

theorem pieces_trimEndBy (cs : List Char) :
    pieces isBreak (trimEndBy isBreak cs) = pieces isBreak cs := by
  -- The end is where trimming works, so the induction takes characters off there.
  induction cs using List.reverseRecOn with
  | nil => rfl
  | append_singleton cs c ih =>
    unfold trimEndBy at ih ⊢
    rw [List.reverse_append, List.reverse_singleton, List.singleton_append]
    cases hc : isBreak c with
    | true =>
      rw [List.dropWhile_cons_of_pos hc, ih, pieces_append_cons hc, pieces_nil, List.append_nil]
    | false =>
      rw [List.dropWhile_cons_of_neg (by simp [hc]), List.reverse_cons, List.reverse_reverse]

/-- Marks at either end do not matter for the pieces that are not empty. -/
@[simp] theorem pieces_trimBy (cs : List Char) :
    pieces isBreak (trimBy isBreak cs) = pieces isBreak cs := by
  change pieces isBreak (trimEndBy isBreak (cs.dropWhile isBreak)) = pieces isBreak cs
  rw [pieces_trimEndBy, pieces_dropWhile]

/-- Nothing but marks has no piece that is not empty. -/
theorem pieces_eq_nil_of_isBreak {cs : List Char} (h : ∀ c ∈ cs, isBreak c = true) :
    pieces isBreak cs = [] := by
  induction cs with
  | nil => exact pieces_nil
  | cons c cs ih =>
    obtain ⟨hc, hcs⟩ := List.forall_mem_cons.1 h
    rw [pieces_cons_of_break hc, ih hcs]

/-- Only marks can have no piece that is not empty. -/
theorem isBreak_of_pieces_eq_nil {cs : List Char} (h : pieces isBreak cs = []) :
    ∀ c ∈ cs, isBreak c = true := by
  induction cs with
  | nil => simp
  | cons c cs ih =>
    cases hc : isBreak c with
    | true =>
      rw [pieces_cons_of_break hc] at h
      exact List.forall_mem_cons.2 ⟨hc, ih h⟩
    | false =>
      obtain ⟨piece, rest, -, hsplit⟩ := exists_splitBy_cons hc cs
      simp [pieces, hsplit] at h

/-- What trimming leaves has a piece that is not empty. -/
theorem trimBy_eq_nil_of_pieces_eq_nil {cs : List Char} (h : pieces isBreak cs = []) :
    trimBy isBreak cs = [] := by
  have hstart : cs.dropWhile isBreak = [] := by
    rw [List.dropWhile_eq_nil_iff]
    exact isBreak_of_pieces_eq_nil h
  simp [trimBy, hstart]

/-! ## Leads and tails -/

theorem stripStart?_eq_some_iff {lead text rest : List Char} :
    stripStart? lead text = some rest ↔ text = lead ++ rest := by
  induction lead generalizing text with
  | nil => simp [stripStart?]
  | cons l lead ih =>
    cases text with
    | nil => simp [stripStart?]
    | cons c text =>
      by_cases hl : l = c
      · subst hl
        simp [stripStart?, ih]
      · have hc : c ≠ l := fun h => hl h.symm
        simp [stripStart?, hl, hc]

theorem stripEnd?_eq_some_iff {tail text rest : List Char} :
    stripEnd? tail text = some rest ↔ text = rest ++ tail := by
  simp only [stripEnd?, Option.map_eq_some_iff, stripStart?_eq_some_iff]
  constructor
  · rintro ⟨taken, htext, rfl⟩
    have h := congrArg List.reverse htext
    simpa using h
  · rintro rfl
    exact ⟨rest.reverse, by simp, by simp⟩

/-! ## Joining -/

/-- The texts at the front are each followed by the glue, when there are others behind them. -/
theorem join_append (glue : String) (front : List String) {back : List String} (h : back ≠ []) :
    join glue (front ++ back) = String.join (front.map (· ++ glue)) ++ join glue back := by
  induction front with
  | nil => simp
  | cons first front ih =>
    have hne := List.append_ne_nil_of_right_ne_nil front h
    rw [List.cons_append, join, String.intercalate_cons_of_ne_nil hne, ← join, ih, List.map_cons,
      String.join_cons, String.append_assoc, String.append_assoc, String.append_assoc]

end Text

end ServantGen
