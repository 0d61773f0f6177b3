import ServantGen.Haskell.TypeText
import ServantGen.Proofs.Closure.Inventory
import ServantGen.Proofs.Haskell.Lexemes

/-!
# Phrases

Lexemes are grouped by brackets. A list of lexemes is cut at a mark only where the mark stands
outside of all brackets, and a phrase is a list that is not cut. Types whose names are words are
phrases, and what is joined with a mark between phrases is cut into these phrases again.
-/

namespace ServantGen.Haskell

/-! ## Brackets -/

def brackets : List (String × String) :=
  [("(", ")"), ("[", "]"), ("\x7b", "\x7d")]

def opensBracket (lexeme : String) : Bool :=
  (brackets.map Prod.fst).contains lexeme

def closesBracket (lexeme : String) : Bool :=
  (brackets.map Prod.snd).contains lexeme

def depthBehind (depth : Nat) (lexeme : String) : Nat :=
  if opensBracket lexeme then depth + 1
  else if closesBracket lexeme then depth - 1
  else depth

/-- How many brackets are open behind lexemes, unless one is closed that is not open. -/
def depthAfter : Nat → List String → Option Nat
  | depth, [] => some depth
  | depth, lexeme :: rest =>
    if closesBracket lexeme && depth == 0 then none else depthAfter (depthBehind depth lexeme) rest

/-- Every bracket that is opened is closed, and the other way round. -/
def Balanced (list : List String) : Prop :=
  depthAfter 0 list = some 0

instance (list : List String) : Decidable (Balanced list) :=
  inferInstanceAs (Decidable (_ = _))

/-- Cut lexemes at the marks outside of brackets, `depth` of which are open. -/
def splitOuter (mark : String) : Nat → List String → List (List String)
  | _, [] => [[]]
  | depth, lexeme :: rest =>
    if lexeme = mark ∧ depth = 0 then [] :: splitOuter mark 0 rest
    else (splitOuter mark (depthBehind depth lexeme) rest).modifyHead (lexeme :: ·)

/-- What stands between parentheses that go around everything. -/
def unwrap? : List String → Option (List String)
  | "(" :: rest =>
    if rest.getLast? = some ")" ∧ Balanced rest.dropLast then some rest.dropLast else none
  | _ => none

section Depth

variable {depth final : Nat} {first rest inner : List String}

theorem depthAfter_append (depth : Nat) (first rest : List String) :
    depthAfter depth (first ++ rest) =
      (depthAfter depth first).bind fun depth => depthAfter depth rest := by
  induction first generalizing depth with
  | nil => rfl
  | cons lexeme first ih =>
    simp only [List.cons_append, depthAfter]
    split
    · rfl
    · exact ih _

/-- Brackets around do not matter for those inside. -/
theorem depthBehind_succ {lexeme : String} (h : (closesBracket lexeme && depth == 0) = false) :
    depthBehind (depth + 1) lexeme = depthBehind depth lexeme + 1 := by
  unfold depthBehind
  split
  · rfl
  · split
    · rename_i hcloses
      have hdepth : depth ≠ 0 := by simpa [hcloses] using h
      omega
    · rfl

theorem depthAfter_succ (h : depthAfter depth first = some final) :
    depthAfter (depth + 1) first = some (final + 1) := by
  induction first generalizing depth with
  | nil =>
    obtain rfl := Option.some.inj h
    rfl
  | cons lexeme first ih =>
    unfold depthAfter at h
    split at h
    · simp at h
    · rename_i hopen
      rw [Bool.not_eq_true] at hopen
      rw [depthAfter, depthBehind_succ hopen, ih h]
      simp

theorem balanced_nil : Balanced [] := rfl

theorem Balanced.append (h : Balanced first) (h' : Balanced rest) : Balanced (first ++ rest) := by
  unfold Balanced
  rw [depthAfter_append, h]
  exact h'

theorem brackets_apart : ∀ pair ∈ brackets, opensBracket pair.1 = true ∧
    closesBracket pair.2 = true ∧ closesBracket pair.1 = false ∧ opensBracket pair.2 = false := by
  decide

/-- Brackets around balanced lexemes. -/
theorem Balanced.enclose (h : Balanced inner) {opening closing : String}
    (hpair : (opening, closing) ∈ brackets) : Balanced (opening :: inner ++ [closing]) := by
  obtain ⟨hopening, hclosing, hother⟩ := brackets_apart (opening, closing) hpair
  have hinner := depthAfter_succ h
  unfold Balanced
  simp [depthAfter, depthBehind, hopening, hclosing, hother, depthAfter_append, hinner]

/-- A lexeme that is no bracket. -/
theorem balanced_singleton {lexeme : String} (hopens : opensBracket lexeme = false)
    (hcloses : closesBracket lexeme = false) : Balanced [lexeme] := by
  simp [Balanced, depthAfter, depthBehind, hopens, hcloses]

theorem Balanced.intercalate {glue : List String} (hglue : Balanced glue)
    {lists : List (List String)} (h : ∀ list ∈ lists, Balanced list) :
    Balanced (glue.intercalate lists) := by
  induction lists with
  | nil => exact balanced_nil
  | cons list lists ih =>
    obtain ⟨hlist, hlists⟩ := List.forall_mem_cons.1 h
    cases lists with
    | nil => simpa [List.intercalate] using hlist
    | cons next lists =>
      rw [List.intercalate_cons_cons]
      exact (hlist.append hglue).append (ih hlists)

/-- Parentheses around balanced lexemes are taken off. -/
theorem unwrap?_enclosed (h : Balanced inner) : unwrap? ("(" :: inner ++ [")"]) = some inner := by
  simp [unwrap?, h]

end Depth

/-! ## Phrases -/

/-- Lexemes with balanced brackets that are not cut at a mark. -/
structure Phrase (mark : String) (list : List String) : Prop where
  balanced : Balanced list
  whole : splitOuter mark 0 list = [list]

instance (mark : String) (list : List String) : Decidable (Phrase mark list) :=
  decidable_of_iff (Balanced list ∧ splitOuter mark 0 list = [list])
    ⟨fun h => ⟨h.1, h.2⟩, fun h => ⟨h.1, h.2⟩⟩

section Phrases

variable {mark : String} {depth final : Nat} {first rest inner : List String}

theorem modifyHead_append (first rest : List String) (lists : List (List String)) :
    (lists.modifyHead (rest ++ ·)).modifyHead (first ++ ·) =
      lists.modifyHead (first ++ rest ++ ·) := by
  cases lists <;> simp

theorem splitOuter_ne_nil (mark : String) (depth : Nat) (list : List String) :
    splitOuter mark depth list ≠ [] := by
  induction list generalizing depth with
  | nil => simp [splitOuter]
  | cons lexeme list ih =>
    unfold splitOuter
    split
    · simp
    · simpa using ih _

/-- What is not cut stays in front of what follows it. -/
theorem splitOuter_append_of_whole (h : depthAfter depth first = some final)
    (hwhole : splitOuter mark depth first = [first]) (rest : List String) :
    splitOuter mark depth (first ++ rest) =
      (splitOuter mark final rest).modifyHead (first ++ ·) := by
  induction first generalizing depth with
  | nil =>
    obtain rfl := Option.some.inj h
    exact (congrFun List.modifyHead_id _).symm
  | cons lexeme first ih =>
    unfold depthAfter at h
    split at h
    · simp at h
    · unfold splitOuter at hwhole
      split at hwhole
      · simp at hwhole
      · rename_i hmark
        have hwhole : splitOuter mark (depthBehind depth lexeme) first = [first] := by
          cases hsplit : splitOuter mark (depthBehind depth lexeme) first with
          | nil => exact absurd hsplit (splitOuter_ne_nil _ _ _)
          | cons chunk chunks => simpa [hsplit] using hwhole
        rw [List.cons_append, splitOuter, if_neg hmark, ih h hwhole]
        exact modifyHead_append [lexeme] first _

/-- Inside of brackets nothing is cut. -/
theorem splitOuter_inside (h : depthAfter depth first = some final) :
    splitOuter mark (depth + 1) first = [first] := by
  induction first generalizing depth with
  | nil => rfl
  | cons lexeme first ih =>
    unfold depthAfter at h
    split at h
    · simp at h
    · rename_i hopen
      rw [Bool.not_eq_true] at hopen
      rw [splitOuter, if_neg (by simp), depthBehind_succ hopen, ih h]
      rfl

theorem phrase_nil (mark : String) : Phrase mark [] := ⟨rfl, rfl⟩

theorem Phrase.append (h : Phrase mark first) (h' : Phrase mark rest) :
    Phrase mark (first ++ rest) where
  balanced := h.balanced.append h'.balanced
  whole := by
    rw [splitOuter_append_of_whole h.balanced h.whole, h'.whole]
    rfl

/-- Brackets make a phrase of whatever is balanced. -/
theorem Balanced.phrase (h : Balanced inner) {opening closing : String}
    (hpair : (opening, closing) ∈ brackets) (hmark : opening ≠ mark) :
    Phrase mark (opening :: inner ++ [closing]) where
  balanced := h.enclose hpair
  whole := by
    have hopening := (brackets_apart (opening, closing) hpair).1
    have hwhole : splitOuter mark 1 inner = [inner] := splitOuter_inside h
    have hinside := splitOuter_append_of_whole (depthAfter_succ h) hwhole [closing]
    rw [List.cons_append, splitOuter, if_neg (by simp [hmark]), depthBehind, if_pos hopening,
      hinside, splitOuter, if_neg (by simp)]
    rfl

theorem phrase_singleton {lexeme : String} (hopens : opensBracket lexeme = false)
    (hcloses : closesBracket lexeme = false) (hmark : lexeme ≠ mark) : Phrase mark [lexeme] where
  balanced := balanced_singleton hopens hcloses
  whole := by simp [splitOuter, hmark]

theorem Phrase.intercalate {glue : List String} (hglue : Phrase mark glue)
    {lists : List (List String)} (h : ∀ list ∈ lists, Phrase mark list) :
    Phrase mark (glue.intercalate lists) := by
  induction lists with
  | nil => exact phrase_nil mark
  | cons list lists ih =>
    obtain ⟨hlist, hlists⟩ := List.forall_mem_cons.1 h
    cases lists with
    | nil => simpa [List.intercalate] using hlist
    | cons next lists =>
      rw [List.intercalate_cons_cons]
      exact (hlist.append hglue).append (ih hlists)

/-- Phrases with marks between them are cut apart again. -/
theorem splitOuter_intercalate {lists : List (List String)} (hne : lists ≠ [])
    (h : ∀ list ∈ lists, Phrase mark list) :
    splitOuter mark 0 ([mark].intercalate lists) = lists := by
  induction lists with
  | nil => exact absurd rfl hne
  | cons list lists ih =>
    obtain ⟨hlist, hlists⟩ := List.forall_mem_cons.1 h
    cases lists with
    | nil => simpa [List.intercalate] using hlist.whole
    | cons next lists =>
      rw [List.intercalate_cons_cons, List.append_assoc,
        splitOuter_append_of_whole hlist.balanced hlist.whole, List.singleton_append, splitOuter,
        if_pos (by simp), ih (by simp) hlists]
      simp

end Phrases

/-! ## Words and literals -/

/-- The marks at which routes, handlers, interfaces and records are cut. -/
def separators : List String :=
  [":>", "->", ":<|>", ","]

/-- Whether a lexeme starts like a word or a literal. -/
def isPlainLexeme (lexeme : String) : Bool :=
  lexeme.toList.head?.any fun c => c.isAlphanum || c == '_' || c == '"' || c == '\''

theorem isPlainLexeme_special : ∀ lexeme ∈ brackets.map Prod.fst ++ brackets.map Prod.snd ++
    separators, isPlainLexeme lexeme = false := by
  decide

theorem isPlainLexeme_literal (text : String) : isPlainLexeme (literal text) = true := by
  simp [isPlainLexeme, literal]

theorem IsWord.isPlainLexeme {word : String} (h : IsWord word) : isPlainLexeme word = true := by
  unfold Haskell.isPlainLexeme
  cases hcs : word.toList with
  | nil => exact absurd (String.toList_eq_nil_iff.1 hcs) h.ne_empty
  | cons c cs =>
    have hc := h.made c (hcs ▸ List.mem_cons_self)
    simp [hc]

/-- Lexemes without brackets and separators. -/
theorem phrase_of_plain {mark : String} (hmark : mark ∈ separators) {list : List String}
    (h : ∀ lexeme ∈ list, isPlainLexeme lexeme = true) : Phrase mark list := by
  induction list with
  | nil => exact phrase_nil mark
  | cons lexeme list ih =>
    obtain ⟨hlexeme, hlist⟩ := List.forall_mem_cons.1 h
    have hapart : ∀ special ∈ brackets.map Prod.fst ++ brackets.map Prod.snd ++ separators,
        lexeme ≠ special := by
      rintro special hspecial rfl
      simp [isPlainLexeme_special _ hspecial] at hlexeme
    simp only [List.forall_mem_append] at hapart
    have hfirst : Phrase mark [lexeme] := phrase_singleton ?_ ?_ (hapart.2 mark hmark)
    · exact hfirst.append (ih hlist)
    · rw [opensBracket, ← Bool.not_eq_true, List.contains_iff_mem]
      exact fun hmem => hapart.1.1 lexeme hmem rfl
    · rw [closesBracket, ← Bool.not_eq_true, List.contains_iff_mem]
      exact fun hmem => hapart.1.2 lexeme hmem rfl

/-- A text that is read as one phrase, whichever separator it is cut at. -/
structure PhraseText (text : String) : Prop where
  ends : EndsPlainly text
  phrase : ∀ mark ∈ separators, Phrase mark (lexemes text)

section Texts

variable {text lead : String} {spelled : List String}

theorem IsWord.phraseText (h : IsWord text) : PhraseText text where
  ends := h.endsPlainly
  phrase := by
    intro mark hmark
    rw [h.lexemes_eq]
    exact phrase_of_plain hmark (List.forall_mem_singleton.2 h.isPlainLexeme)

theorem Spells.phraseText (h : Spells text spelled)
    (hphrase : ∀ mark ∈ separators, Phrase mark spelled) : PhraseText text :=
  ⟨h.endsPlainly, h.lexemes_eq.symm ▸ hphrase⟩

/-- A phrase behind whole lexemes that are a phrase. -/
theorem PhraseText.behind (h : PhraseText text) (hlead : Spells lead spelled)
    (hphrase : ∀ mark ∈ separators, Phrase mark spelled) : PhraseText (lead ++ text) where
  ends := hlead.endsPlainly_append h.ends
  phrase := by
    intro mark hmark
    rw [hlead.lexemes_append]
    exact (hphrase mark hmark).append (h.phrase mark hmark)

theorem PhraseText.balanced (h : PhraseText text) : Balanced (lexemes text) :=
  (h.phrase "," (by decide)).balanced

theorem opening_ne_separator : ∀ opening ∈ brackets.map Prod.fst, ∀ mark ∈ separators,
    opening ≠ mark := by
  decide

/-- Brackets around a text that ends plainly. -/
theorem spells_bracketed (h : EndsPlainly text) {opening closing : String}
    (hpair : (opening, closing) ∈ brackets) :
    Spells (opening ++ text ++ closing) (opening :: lexemes text ++ [closing]) := by
  have hbrackets : ∀ pair ∈ brackets, Spells pair.1 [pair.1] ∧ Spells pair.2 [pair.2] ∧
      StartsApart pair.2 := by
    decide
  obtain ⟨hopening, hclosing, happart⟩ := hbrackets _ hpair
  rw [String.append_assoc]
  exact hopening.append (h.spells_append hclosing happart)

theorem PhraseText.bracketed (h : PhraseText text) {opening closing : String}
    (hpair : (opening, closing) ∈ brackets) : PhraseText (opening ++ text ++ closing) :=
  (spells_bracketed h.ends hpair).phraseText fun mark hmark =>
    h.balanced.phrase hpair (opening_ne_separator _ (List.mem_map_of_mem hpair) mark hmark)

/-- An argument is the text itself or stands in parentheses. -/
theorem lexemes_asArgument (h : EndsPlainly text) :
    lexemes (asArgument text) = lexemes text ∨
      lexemes (asArgument text) = "(" :: lexemes text ++ [")"] := by
  unfold asArgument
  split
  · exact .inr (spells_bracketed h (by decide)).lexemes_eq
  · exact .inl rfl

theorem PhraseText.asArgument (h : PhraseText text) : PhraseText (asArgument text) := by
  unfold Haskell.asArgument
  split
  · exact h.bracketed (by decide)
  · exact h

end Texts

/-- Phrases that are joined with a separator are cut apart again. -/
theorem splitOuter_lexemes_join {mark glue : String} (hmark : mark ∈ separators)
    (hglue : Spells glue [mark]) (hapart : StartsApart glue) {texts : List String}
    (hne : texts ≠ []) (h : ∀ text ∈ texts, PhraseText text) :
    splitOuter mark 0 (lexemes (Text.join glue texts)) = texts.map lexemes := by
  rw [(endsPlainly_join hglue hapart fun text htext => (h text htext).ends).2]
  refine splitOuter_intercalate (by simpa using hne) ?_
  rw [List.forall_mem_map]
  exact fun text htext => (h text htext).phrase mark hmark

/-! ## Types -/

structure HasWords (type : DataType) : Prop where
  models : ∀ name ∈ type.models, IsWord name
  enums : ∀ entry ∈ type.enums, IsWord entry.1

theorem HasWords.stripOptional {type : DataType} (h : HasWords type) :
    HasWords type.stripOptional where
  models := by simpa using h.models
  enums := by simpa using h.enums

theorem isWord_primitiveName (kind : Primitive) : IsWord (primitiveName kind) := by
  cases kind <;> decide

theorem hasWords_string : HasWords .string :=
  ⟨by simp, by simp⟩

section Types

variable {type : DataType}

theorem spells_map : Spells "Map Text " ["Map", "Text"] := by decide

theorem spells_maybe : Spells "Maybe " ["Maybe"] := by decide

theorem phraseText_typeText (h : HasWords type) : PhraseText (typeText type) := by
  induction type with
  | primitive kind => exact (isWord_primitiveName kind).phraseText
  | named name => exact (h.models name List.mem_cons_self).phraseText
  | enum name values => exact (h.enums (name, values) List.mem_cons_self).phraseText
  | array item ih => exact (ih ⟨h.models, h.enums⟩).bracketed (by decide)
  | map value ih => exact (ih ⟨h.models, h.enums⟩).asArgument.behind spells_map (by decide)
  | optional inner ih => exact (ih ⟨h.models, h.enums⟩).asArgument.behind spells_maybe (by decide)

theorem phraseText_atomText (h : HasWords type) : PhraseText (atomText type) :=
  (phraseText_typeText h).asArgument

/-- A type does not start with a parenthesis. -/
theorem unwrap?_typeText (h : HasWords type) : unwrap? (lexemes (typeText type)) = none := by
  have hword : ∀ word, IsWord word → unwrap? (lexemes word) = none := by
    intro word hword
    rw [hword.lexemes_eq]
    have hne : word ≠ "(" := hword.ne (c := '(') (by decide) (by decide)
    simp [unwrap?, hne]
  cases type with
  | primitive kind => exact hword _ (isWord_primitiveName kind)
  | named name => exact hword _ (h.models name List.mem_cons_self)
  | enum name values => exact hword _ (h.enums (name, values) List.mem_cons_self)
  | array item =>
    have hitem : HasWords item := ⟨h.models, h.enums⟩
    rw [typeText, (spells_bracketed (phraseText_typeText hitem).ends (by decide)).lexemes_eq]
    rfl
  | map value =>
    rw [typeText, spells_map.lexemes_append]
    rfl
  | optional inner =>
    rw [typeText, spells_maybe.lexemes_append]
    rfl

/-- Lexemes without parentheses around all of them. -/
def peel (list : List String) : List String :=
  (unwrap? list).getD list

/-- As an argument a type has parentheses around it at most. -/
theorem peel_atomText (h : HasWords type) :
    peel (lexemes (atomText type)) = lexemes (typeText type) := by
  have htext := phraseText_typeText h
  unfold peel atomText
  obtain heq | heq := lexemes_asArgument htext.ends
  · rw [heq, unwrap?_typeText h, Option.getD_none]
  · rw [heq, unwrap?_enclosed htext.balanced, Option.getD_some]

end Types

end ServantGen.Haskell
