import ServantGen.Proofs.Haskell.ApiLines
import ServantGen.Proofs.Haskell.Spelling

/-!
# Reading lines while they are written

What a reader finds in written code is known line by line, in the order of writing. A line is put
together from words, literals and fixed texts, and its lexemes are theirs one after another. Code
at the margin is continued by whole declarations: each begins with a line at the margin and goes on
with lines further in, and comments add nothing to what is read.
-/

namespace ServantGen.Haskell

open Text (OnOneLine)

/-! ## Texts on a line -/

/-- The lexemes of a text that ends in a word or between two lexemes; a whole text ends between
two. -/
def plainLexemes? (whole : Bool) (text : String) : Option (List String) :=
  match Reading.start.scan text.toList with
  | (.word read, ended) =>
    if isDashes read || (whole && read != []) then none else some (ended ++ wordLexemes read)
  | _ => none

/-- A text on one line and its lexemes. What stands behind a text that is not whole has to end the
last word of it. -/
structure Reads (whole : Bool) (text : String) (list : List String) : Prop where
  line : OnOneLine text
  plain : plainLexemes? whole text = some list

instance (whole : Bool) (text : String) (list : List String) :
    Decidable (Reads whole text list) :=
  decidable_of_iff (OnOneLine text ∧ plainLexemes? whole text = some list)
    ⟨fun h => ⟨h.1, h.2⟩, fun h => ⟨h.1, h.2⟩⟩

section Reads

variable {whole other : Bool} {text first rest : String} {list others : List String}

theorem plainLexemes?_eq_some_iff : plainLexemes? whole text = some list ↔
    ∃ read ended, Reading.start.scan text.toList = (.word read, ended) ∧ isDashes read = false ∧
      (whole = true → read = []) ∧ ended ++ wordLexemes read = list := by
  unfold plainLexemes?
  cases hscan : Reading.start.scan text.toList with
  | mk last ended =>
    cases last with
    | word read =>
      have hends : (isDashes read || (whole && read != [])) = false ↔
          isDashes read = false ∧ (whole = true → read = []) := by
        cases whole <;> simp
      dsimp only
      split
      · rename_i hopen
        have hopen := fun h => Bool.false_ne_true ((hends.2 h).symm.trans hopen)
        simpa using fun hdashes hread => absurd ⟨hdashes, hread⟩ hopen
      · rename_i hopen
        obtain ⟨hdashes, hread⟩ := hends.1 (Bool.not_eq_true _ ▸ hopen)
        simpa [hdashes] using fun _ => hread
    | literal read => simp
    | escape read => simp
    | comment => simp

theorem Reads.endsPlainly (h : Reads whole text list) : EndsPlainly text := by
  obtain ⟨read, ended, hscan, hread, -, -⟩ := plainLexemes?_eq_some_iff.1 h.plain
  exact ⟨read, ended, hread, hscan⟩

theorem Reads.lexemes_eq (h : Reads whole text list) : lexemes text = list := by
  obtain ⟨read, ended, hscan, -, -, hlist⟩ := plainLexemes?_eq_some_iff.1 h.plain
  rw [lexemes, hscan]
  exact hlist

theorem Reads.spells (h : Reads true text list) : Spells text list := by
  obtain ⟨read, ended, hscan, -, hwhole, hlist⟩ := plainLexemes?_eq_some_iff.1 h.plain
  obtain rfl := hwhole rfl
  rw [Spells, hscan, ← hlist, wordLexemes, if_pos (.inl rfl), List.append_nil]
  rfl

theorem EndsPlainly.reads (h : EndsPlainly text) (hline : OnOneLine text) :
    Reads false text (lexemes text) := by
  obtain ⟨read, ended, hread, hscan⟩ := h
  refine ⟨hline, plainLexemes?_eq_some_iff.2 ⟨read, ended, hscan, hread, by simp, ?_⟩⟩
  rw [lexemes, hscan]
  rfl

theorem Spells.reads (h : Spells text list) (hline : OnOneLine text) : Reads true text list :=
  ⟨hline, plainLexemes?_eq_some_iff.2 ⟨[], list, h, rfl, fun _ => rfl, by simp [wordLexemes]⟩⟩

theorem IsWord.reads (h : IsWord text) : Reads false text [text] := by
  have hreads := h.endsPlainly.reads (onOneLine_of_isWord h)
  rwa [h.lexemes_eq] at hreads

theorem reads_literal (text : String) : Reads true (literal text) [literal text] :=
  (spells_literal text).reads (onOneLine_literal text)

/-- Where lexemes of the first text end, the second is read as if it stood alone. -/
theorem plainLexemes?_append
    (h : Reading.start.scan (first ++ rest).toList = ((Reading.start.scan rest.toList).1,
      list ++ (Reading.start.scan rest.toList).2)) :
    plainLexemes? whole (first ++ rest) = (plainLexemes? whole rest).map (list ++ ·) := by
  unfold plainLexemes?
  rw [h]
  cases hscan : Reading.start.scan rest.toList with
  | mk last ended =>
    cases last with
    | word read =>
      dsimp only
      split
      · rfl
      · simp
    | literal read => rfl
    | escape read => rfl
    | comment => rfl

theorem Reads.behind (h : Reads true first list) (h' : Reads other rest others) :
    Reads other (first ++ rest) (list ++ others) where
  line := Text.madeOf_append.2 ⟨h.line, h'.line⟩
  plain := by rw [plainLexemes?_append (h.spells.scan_append rest), h'.plain, Option.map_some]

theorem Reads.append (h : Reads whole first list) (h' : Reads other rest others)
    (hapart : StartsApart rest) : Reads other (first ++ rest) (list ++ others) where
  line := Text.madeOf_append.2 ⟨h.line, h'.line⟩
  plain := by
    rw [plainLexemes?_append (h.endsPlainly.scan_append hapart), h.lexemes_eq, h'.plain,
      Option.map_some]

theorem Reads.begins (h : Reads whole text list) (hlist : list ≠ [])
    (hblank : text.toList.head? ≠ some ' ') : beginsDeclaration text = true := by
  simp [beginsDeclaration, h.lexemes_eq, hlist, hblank]

end Reads

/-! ## Texts without annotations -/

/-- A text without the mark of a type annotation. -/
def Bare (whole : Bool) (text : String) : Prop :=
  ∃ list, Reads whole text list ∧ "::" ∉ list

instance (whole : Bool) (text : String) : Decidable (Bare whole text) :=
  decidable_of_iff (OnOneLine text ∧ (plainLexemes? whole text).any (!·.contains "::") = true) <| by
    constructor
    · rintro ⟨hline, hbare⟩
      obtain ⟨list, hlist, hmark⟩ := (Option.any_eq_true _ _).1 hbare
      exact ⟨list, ⟨hline, hlist⟩, by simpa using hmark⟩
    · rintro ⟨list, ⟨hline, hlist⟩, hmark⟩
      exact ⟨hline, by simpa [hlist] using hmark⟩

section Bare

variable {whole other : Bool} {text first rest : String}

theorem IsWord.ne_mark (h : IsWord text) : text ≠ "::" :=
  h.ne (c := ':') (by decide) (by decide)

theorem literal_ne_mark (text : String) : literal text ≠ "::" := by
  intro heq
  have hliteral := isPlainLexeme_literal text
  rw [heq] at hliteral
  exact absurd hliteral (by decide)

theorem IsWord.bare (h : IsWord text) : Bare false text :=
  ⟨_, h.reads, by simpa using h.ne_mark.symm⟩

theorem bare_literal (text : String) : Bare true (literal text) :=
  ⟨_, reads_literal text, by simpa using (literal_ne_mark text).symm⟩

theorem Bare.behind (h : Bare true first) (h' : Bare other rest) : Bare other (first ++ rest) := by
  obtain ⟨list, hlist, hmark⟩ := h
  obtain ⟨others, hothers, hmark'⟩ := h'
  exact ⟨_, hlist.behind hothers, by simp [hmark, hmark']⟩

theorem Bare.append (h : Bare whole first) (h' : Bare other rest) (hapart : StartsApart rest) :
    Bare other (first ++ rest) := by
  obtain ⟨list, hlist, hmark⟩ := h
  obtain ⟨others, hothers, hmark'⟩ := h'
  exact ⟨_, hlist.append hothers hapart, by simp [hmark, hmark']⟩

end Bare

/-! ## Lines further in -/

/-- Lexemes are added to code on lines further in. -/
def AddsInside (code after : Code) (list : List String) : Prop :=
  0 < code.level → code.IsRows → after.level = code.level ∧ after.IsRows ∧
    ∃ rows, after.rows indentStep = code.rows indentStep ++ rows ∧
      (∀ row ∈ rows, beginsDeclaration row = false) ∧ rows.flatMap lexemes = list

namespace AddsInside

variable {code middle after : Code} {list others : List String} {text : String} {whole : Bool}

theorem nothing (code : Code) : AddsInside code code [] :=
  fun _ hrows => ⟨rfl, hrows, [], by simp⟩

theorem trans (h : AddsInside code middle list) (h' : AddsInside middle after others) :
    AddsInside code after (list ++ others) := by
  intro hlevel hrows
  obtain ⟨hmiddle, hrows, rows, hown, hinside, hlist⟩ := h hlevel hrows
  obtain ⟨hafter, hrows, more, hmore, hinside', hlist'⟩ := h' (hmiddle ▸ hlevel) hrows
  refine ⟨hafter.trans hmiddle, hrows, rows ++ more, ?_, ?_, ?_⟩
  · rw [hmore, hown, List.append_assoc]
  · exact List.forall_mem_append.2 ⟨hinside, hinside'⟩
  · rw [List.flatMap_append, hlist, hlist']

/-- Lines add their lexemes. -/
theorem lines {texts : List String} {read : String → List String}
    (h : ∀ text ∈ texts, OnOneLine text ∧ lexemes text = read text) :
    AddsInside code (code.lines texts) (texts.flatMap read) := by
  intro hlevel hrows
  obtain ⟨level, hlevel⟩ := Nat.exists_eq_succ_of_ne_zero hlevel.ne'
  refine ⟨code.level_lines texts, (code.isRows_lines texts).2 ⟨hrows, fun text htext =>
    (h text htext).1⟩, _, code.rows_lines indentStep texts, ?_, ?_⟩
  · rw [hlevel, List.forall_mem_map]
    exact fun text _ => beginsDeclaration_rowAt_succ level text
  · rw [flatMap_lexemes_rowAt]
    exact List.flatMap_congr fun text htext => (h text htext).2

theorem line (h : Reads whole text list) : AddsInside code (code.line text) list := by
  have hlines : AddsInside code (code.lines [text]) ([text].flatMap lexemes) :=
    lines (List.forall_mem_singleton.2 ⟨h.line, rfl⟩)
  rw [List.flatMap_singleton, h.lexemes_eq] at hlines
  exact hlines

/-- Lines still further in add their lexemes as well. -/
theorem deeper (h : AddsInside code.indent after list) : AddsInside code after.dedent list := by
  intro _ hrows
  obtain ⟨hlevel, hrows, hadded⟩ := h (Nat.succ_pos _) hrows
  refine ⟨?_, hrows, hadded⟩
  rw [Code.level_dedent, hlevel, Code.level_indent, Nat.add_sub_cancel]

/-- Items that are written one after another. -/
theorem foldl {α : Type} {write : Code → α → Code} {read : α → List String} {items : List α}
    (h : ∀ item ∈ items, ∀ code, AddsInside code (write code item) (read item)) :
    AddsInside code (items.foldl write code) (items.flatMap read) := by
  induction items generalizing code with
  | nil => exact nothing code
  | cons item items ih =>
    obtain ⟨hitem, hitems⟩ := List.forall_mem_cons.1 h
    exact (hitem code).trans (ih hitems)

end AddsInside

/-- Lines without annotations add lexemes without annotations. -/
theorem exists_addsInside_lines {texts : List String}
    (h : ∀ text ∈ texts, ∃ whole, Bare whole text) :
    ∃ list, (∀ code : Code, AddsInside code (code.lines texts) list) ∧ "::" ∉ list := by
  refine ⟨texts.flatMap lexemes, fun code => .lines fun text htext => ?_, ?_⟩
  · obtain ⟨whole, list, hlist, -⟩ := h text htext
    exact ⟨hlist.line, rfl⟩
  · rw [List.mem_flatMap]
    rintro ⟨text, htext, hmem⟩
    obtain ⟨whole, list, hlist, hmark⟩ := h text htext
    exact hmark (hlist.lexemes_eq ▸ hmem)

/-- Nothing that annotates a type is added on lines further in. -/
def AddsBare (code after : Code) : Prop :=
  ∃ list, AddsInside code after list ∧ "::" ∉ list

namespace AddsBare

variable {code middle after : Code} {text : String} {whole : Bool}

theorem line (h : Bare whole text) : AddsBare code (code.line text) := by
  obtain ⟨list, hlist, hmark⟩ := h
  exact ⟨list, .line hlist, hmark⟩

theorem lines {texts : List String} (h : ∀ text ∈ texts, ∃ whole, Bare whole text) :
    AddsBare code (code.lines texts) := by
  obtain ⟨list, hlist, hmark⟩ := exists_addsInside_lines h
  exact ⟨list, hlist code, hmark⟩

theorem trans (h : AddsBare code middle) (h' : AddsBare middle after) : AddsBare code after := by
  obtain ⟨list, hlist, hmark⟩ := h
  obtain ⟨others, hothers, hmark'⟩ := h'
  exact ⟨_, hlist.trans hothers, by simp [hmark, hmark']⟩

theorem deeper (h : AddsBare code.indent after) : AddsBare code after.dedent := by
  obtain ⟨list, hlist, hmark⟩ := h
  exact ⟨list, hlist.deeper, hmark⟩

end AddsBare

/-! ## Declarations at the margin -/

/-- Whole declarations are added to code at the margin. -/
def Adds (code after : Code) (declarations : List (List String)) : Prop :=
  code.level = 0 → code.IsRows → after.level = 0 ∧ after.IsRows ∧
    ∃ rows, after.rows indentStep = code.rows indentStep ++ rows ∧ ReadsAs rows declarations

namespace Adds

variable {code middle after : Code} {declarations others : List (List String)}
  {text : String} {list more : List String} {whole : Bool}

theorem nothing (code : Code) : Adds code code [] :=
  fun hlevel hrows => ⟨hlevel, hrows, [], by simp, readsAs_nil⟩

theorem trans (h : Adds code middle declarations) (h' : Adds middle after others) :
    Adds code after (declarations ++ others) := by
  intro hlevel hrows
  obtain ⟨hlevel, hrows, rows, hown, hread⟩ := h hlevel hrows
  obtain ⟨hlevel, hrows, more, hmore, hread'⟩ := h' hlevel hrows
  refine ⟨hlevel, hrows, rows ++ more, ?_, hread.append hread'⟩
  rw [hmore, hown, List.append_assoc]

theorem blank (code : Code) : Adds code code.blank [] := by
  refine fun hlevel hrows => ⟨hlevel, (Code.isRows_blank code).2 hrows, [""], ?_, by decide⟩
  exact Code.rows_blank indentStep code

/-- Lines at the margin that are read together as whole declarations. -/
theorem lines {texts : List String} (hlines : ∀ text ∈ texts, OnOneLine text)
    (h : ReadsAs texts declarations) : Adds code (code.lines texts) declarations := by
  intro hlevel hrows
  refine ⟨by simpa using hlevel, (code.isRows_lines texts).2 ⟨hrows, hlines⟩, texts, ?_, h⟩
  rw [Code.rows_lines, hlevel, Code.map_rowAt_zero]

/-- Lines without lexemes. -/
theorem silent {texts : List String} (h : ∀ text ∈ texts, OnOneLine text ∧ lexemes text = []) :
    Adds code (code.lines texts) [] := by
  refine lines (fun text htext => (h text htext).1) ?_
  induction texts with
  | nil => exact readsAs_nil
  | cons text texts ih =>
    obtain ⟨⟨-, htext⟩, htexts⟩ := List.forall_mem_cons.1 h
    exact (readsAs_silent htext).append (ih htexts)

/-- A declaration: a line at the margin and lines further in. -/
theorem declaration (h : Reads whole text list) (hbegins : beginsDeclaration text = true)
    (hinside : AddsInside (code.line text).indent after more) :
    Adds code after.dedent [list ++ more] := by
  intro hlevel hrows
  have hown : (code.line text).IsRows := (Code.isRows_line code text).2 ⟨hrows, h.line⟩
  obtain ⟨hafter, hrows, rows, hadded, hlines, hmore⟩ := hinside (Nat.succ_pos _) hown
  refine ⟨?_, hrows, text :: rows, ?_, ?_⟩
  · rw [Code.level_dedent, hafter, Code.level_indent, Code.level_line, hlevel]
  · rw [Code.rows_dedent, hadded, Code.rows_indent, Code.rows_line, hlevel, Code.rowAt_zero,
      List.append_assoc, List.singleton_append]
  · rw [← h.lexemes_eq, ← hmore]
    exact readsAs_declaration hbegins hlines

/-- A declaration on one line. -/
theorem line (h : Reads whole text list) (hbegins : beginsDeclaration text = true) :
    Adds code (code.line text) [list] := by
  have hline := declaration h hbegins (.nothing (code.line text).indent)
  rwa [List.append_nil] at hline

/-- Items that are written one after another. -/
theorem foldl {α : Type} {write : Code → α → Code} {Read : α → List (List String) → Prop}
    {items : List α}
    (h : ∀ item ∈ items, ∀ code, ∃ read, Adds code (write code item) read ∧ Read item read) :
    ∃ reads, List.Forall₂ Read items reads ∧ Adds code (items.foldl write code) reads.flatten := by
  induction items generalizing code with
  | nil => exact ⟨[], .nil, nothing code⟩
  | cons item items ih =>
    obtain ⟨hitem, hitems⟩ := List.forall_mem_cons.1 h
    obtain ⟨read, hadds, hread⟩ := hitem code
    obtain ⟨reads, hreads, hrest⟩ := ih hitems
    exact ⟨read :: reads, .cons hread hreads, hadds.trans hrest⟩

end Adds

/-! ## Comments -/

/-- The lines of a text have no line feed. -/
theorem ne_lineFeed_of_mem_lines {text line : List Char} (h : line ∈ Text.lines text) :
    ∀ c ∈ line, (c != '\n') = true := by
  have hpiece : ∀ piece ∈ Text.splitBy (· == '\n') text, ∀ c ∈ piece, (c != '\n') = true := by
    intro piece hpiece c hc
    simpa using Text.isBreak_eq_false_of_mem_splitBy hpiece hc
  have hended : ∀ line ∈ (Text.splitBy (· == '\n') text).dropLast.map
      (fun line => (Text.stripEnd? ['\r'] line).getD line), ∀ c ∈ line, (c != '\n') = true := by
    rw [List.forall_mem_map]
    intro piece hmem c hc
    refine hpiece piece ((List.dropLast_sublist _).subset hmem) c ?_
    cases hstrip : Text.stripEnd? ['\r'] piece with
    | none => simpa [hstrip] using hc
    | some rest =>
      rw [hstrip, Option.getD_some] at hc
      rw [Text.stripEnd?_eq_some_iff.1 hstrip]
      exact List.mem_append_left _ hc
  unfold Text.lines at h
  dsimp only at h
  split at h
  · exact hended line h
  · exact hended line h
  · rename_i last _ hlast
    obtain h | h := List.mem_append.1 h
    · exact hended line h
    · obtain rfl := List.mem_singleton.1 h
      exact hpiece _ (List.mem_of_getLast? hlast)

def commentMarks : List String :=
  ["-- |", "-- ^", "--"]

/-- A line of a comment has no lexemes, whatever its text. -/
theorem commentLine_silent {mark : String} (hmark : mark ∈ commentMarks) {text : List Char}
    (htext : ∀ c ∈ text, (c != '\n') = true) :
    OnOneLine (Code.commentLine mark text) ∧ lexemes (Code.commentLine mark text) = [] := by
  have hmarks : ∀ mark ∈ commentMarks, OnOneLine mark ∧ lexemes mark = [] ∧
      ['-', '-', ' '] <+: mark.toList ++ [' '] := by decide
  obtain ⟨hline, hsilent, hstart⟩ := hmarks mark hmark
  unfold Code.commentLine
  split
  · exact ⟨hline, hsilent⟩
  · rename_i own _
    refine ⟨?_, lexemes_comment ?_⟩
    · simp only [Text.madeOf_append, Text.madeOf_ofList]
      refine ⟨⟨hline, by decide⟩, fun c hc => htext c ?_⟩
      rw [Text.trimEndBy, List.mem_reverse] at hc
      exact List.mem_reverse.1 ((List.dropWhile_sublist _).subset hc)
    · rw [String.toList_append, String.toList_append]
      exact hstart.trans (List.prefix_append _ _)

theorem commentLines_silent {first rest : String} (hfirst : first ∈ commentMarks)
    (hrest : rest ∈ commentMarks) (text : String) : ∀ line ∈ Code.commentLines first rest text,
      OnOneLine line ∧ lexemes line = [] := by
  unfold Code.commentLines
  split
  · simp
  · rename_i line lines hlines
    have hmem : ∀ own ∈ line :: lines, ∀ c ∈ own, (c != '\n') = true := fun own hown =>
      ne_lineFeed_of_mem_lines (hlines ▸ hown)
    obtain ⟨hline, hothers⟩ := List.forall_mem_cons.1 hmem
    refine List.forall_mem_cons.2 ⟨commentLine_silent hfirst hline, ?_⟩
    exact List.forall_mem_map.2 fun own hown => commentLine_silent hrest (hothers own hown)

/-- Comments add nothing to what is read. -/
theorem Adds.comment {first rest : String} (hfirst : first ∈ commentMarks)
    (hrest : rest ∈ commentMarks) (text : String) (code : Code) :
    Adds code (code.comment first rest text) [] :=
  .silent (commentLines_silent hfirst hrest text)

theorem AddsInside.comment {first rest : String} (hfirst : first ∈ commentMarks)
    (hrest : rest ∈ commentMarks) (text : String) (code : Code) :
    AddsInside code (code.comment first rest text) [] := by
  have hlines := @AddsInside.lines code _ (fun _ => [])
    (commentLines_silent hfirst hrest text)
  rwa [List.flatMap_eq_nil_iff.2 fun _ _ => rfl] at hlines

end ServantGen.Haskell
