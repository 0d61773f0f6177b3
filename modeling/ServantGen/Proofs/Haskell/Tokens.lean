import ServantGen.Haskell.Endpoint
import ServantGen.Proofs.Haskell.Phrases

/-!
# Tokens of routes

The server library reads a route type token by token. A token names a combinator and what it is
applied to; it tells the argument that the handler takes for it, the name under which the value
travels and where it travels. Every part of a route is read as one token, and the argument that is
written for the part is the one that the token stands for, though the two texts may differ in their
parentheses.
-/

namespace ServantGen.Haskell

/-! ## What the server library reads -/

/-- What a token of a route is in the type of its handler; nothing for a fixed component. -/
def argumentOf? : List String → Option (List String)
  | "Capture" :: _ :: type => some (peel type)
  | "QueryParams" :: _ :: type => some ("[" :: peel type ++ ["]"])
  | "QueryParam" :: _ :: type => some ("Maybe" :: type)
  | "QueryParam'" :: "'" :: "[" :: "Required" :: "," :: "Strict" :: "]" :: _ :: type =>
    some (peel type)
  | "Header" :: _ :: type => some ("Maybe" :: type)
  | "Header'" :: "'" :: "[" :: "Required" :: "," :: "Strict" :: "]" :: _ :: type =>
    some (peel type)
  | "ReqBody" :: "'" :: "[" :: "JSON" :: "]" :: type => some (peel type)
  | "ReqBody'" :: "'" :: "[" :: "Optional" :: "," :: "Strict" :: "]" :: "'" :: "[" :: "JSON" ::
    "]" :: type => some ("Maybe" :: type)
  | "Verb" :: _ :: _ :: "'" :: "[" :: "JSON" :: "]" :: type => some ("m" :: type)
  | _ => none

def isLiteral (lexeme : String) : Bool :=
  lexeme.toList.head? == some '"'

/-- Where the values travel that have a combinator of their own. -/
def locations : List (String × Location) :=
  [("Capture", .path), ("QueryParams", .query), ("QueryParam", .query), ("QueryParam'", .query),
   ("Header", .header), ("Header'", .header)]

/-- The name in a token, as a literal, and where the value travels. -/
def tokenName? : List String → Option (Location × String)
  | combinator :: rest => do
    let location ← locations.lookup combinator
    let name ← rest.find? isLiteral
    return (location, name)
  | [] => none

theorem argumentOf?_singleton (lexeme : String) : argumentOf? [lexeme] = none := by
  simp [argumentOf?]

/-! ## Results -/

def RoutePart.types : RoutePart → List DataType
  | .capture _ type | .queryList _ type | .value _ _ type _ | .body type _ => [type]
  | .verb _ _ result => result.body.toList ++ result.headers.map Prod.snd
  | .literal _ | .marker _ | .cookies => []

theorem spells_blank : Spells " " [] := by decide

/-- A combinator and a literal name. -/
theorem spells_named (spelled : List String) {combinator : String}
    (h : Spells combinator spelled) (name : String) :
    Spells (combinator ++ literal name ++ " ") (spelled ++ [literal name]) := by
  simpa using (h.append (spells_literal name)).append spells_blank

theorem phrase_named (spelled : List String) (h : ∀ mark ∈ separators, Phrase mark spelled)
    (name : String) : ∀ mark ∈ separators, Phrase mark (spelled ++ [literal name]) := by
  intro mark hmark
  refine (h mark hmark).append (phrase_of_plain hmark ?_)
  exact List.forall_mem_singleton.2 (isPlainLexeme_literal name)

theorem phraseText_bodyText {result : ResultType} (h : ∀ type ∈ result.body, HasWords type) :
    PhraseText result.bodyText := by
  unfold ResultType.bodyText
  split
  · rename_i type htype
    exact phraseText_atomText (h type htype)
  · exact IsWord.phraseText (by decide)

/-- Headers in front of an answer: a list of phrases in brackets, and a phrase behind it. -/
theorem phraseText_headers {headers : List String} (h : ∀ header ∈ headers, PhraseText header)
    {text : String} (htext : PhraseText text) :
    PhraseText ("Headers '[" ++ Text.join ", " headers ++ "] " ++ text) := by
  have hcomma : Spells ", " [","] := by decide
  obtain ⟨hends, hlexemes⟩ := endsPlainly_join hcomma (by decide) fun header hheader =>
    (h header hheader).ends
  have hbalanced : Balanced (lexemes (Text.join ", " headers)) := by
    rw [hlexemes]
    exact Balanced.intercalate (by decide) (List.forall_mem_map.2 fun header hheader =>
      (h header hheader).balanced)
  have hlead : Spells ("Headers '[" ++ Text.join ", " headers ++ "] ")
      (["Headers", "'"] ++ ("[" :: lexemes (Text.join ", " headers) ++ ["]"])) := by
    have hopening : Spells "Headers '[" ["Headers", "'", "["] := by decide
    rw [String.append_assoc]
    exact hopening.append (hends.spells_append (by decide) (by decide))
  refine htext.behind hlead fun mark hmark => ?_
  exact (phrase_of_plain hmark (by decide)).append
    (hbalanced.phrase (by decide) (opening_ne_separator _ (by decide) mark hmark))

/-- What an operation answers is one phrase, with headers or without. -/
theorem phraseText_result {result : ResultType}
    (h : ∀ type ∈ result.body.toList ++ result.headers.map Prod.snd, HasWords type) :
    PhraseText result.text := by
  rw [List.forall_mem_append, List.forall_mem_map] at h
  obtain ⟨hbody, hheaders⟩ := h
  have hbodyText : PhraseText result.bodyText := phraseText_bodyText (by simpa using hbody)
  unfold ResultType.text
  dsimp only
  split
  · exact hbodyText
  · let headers := result.headers.map fun header =>
      "Header " ++ literal header.1 ++ " " ++ atomText header.2
    have hlist : ∀ header ∈ headers, PhraseText header := by
      rw [List.forall_mem_map]
      intro header hheader
      exact (phraseText_atomText (hheaders header hheader)).behind
        (spells_named ["Header"] (by decide) header.1)
        (phrase_named ["Header"] (by decide) header.1)
    have hpair : ("(", ")") ∈ brackets := by decide
    have hparenthesized := (phraseText_headers hlist hbodyText).bracketed hpair
    have hjoined : "(Headers '[" ++ Text.join ", " headers ++ "] " ++ result.bodyText ++ ")" =
        "(" ++ ("Headers '[" ++ Text.join ", " headers ++ "] " ++ result.bodyText) ++ ")" := by
      have hlead : "(Headers '[" = "(" ++ "Headers '[" := rfl
      rw [hlead]
      simp only [String.append_assoc]
    exact hjoined ▸ hparenthesized

/-! ## Parts -/

namespace RoutePart

/-- The lexemes of a part in front of its type. -/
def lead : RoutePart → List String
  | .literal component => [Haskell.literal component]
  | .marker _ => []
  | .capture name _ => ["Capture", Haskell.literal name]
  | .queryList name _ => ["QueryParams", Haskell.literal name]
  | .value carrier name _ true =>
    [carrier.combinator ++ "'", "'", "[", "Required", ",", "Strict", "]", Haskell.literal name]
  | .value carrier name _ false => [carrier.combinator, Haskell.literal name]
  | .cookies => ["Header", Haskell.literal "Cookie"]
  | .body _ true => ["ReqBody", "'", "[", "JSON", "]"]
  | .body _ false =>
    ["ReqBody'", "'", "[", "Optional", ",", "Strict", "]", "'", "[", "JSON", "]"]
  | .verb method status _ =>
    ["Verb", "'" ++ method.name, Text.decimal status, "'", "[", "JSON", "]"]

def tail : RoutePart → String
  | .capture _ type | .queryList _ type | .value _ _ type _ | .body type _ => atomText type
  | .cookies => "Text"
  | .verb _ _ result => result.text
  | .literal _ => ""
  | .marker text => text

theorem spells_verb (method : Method) (status : Nat) :
    Spells ("Verb '" ++ method.name ++ " " ++ Text.decimal status ++ " '[JSON] ")
      ["Verb", "'" ++ method.name, Text.decimal status, "'", "[", "JSON", "]"] := by
  have hmethod : Spells ("Verb '" ++ method.name ++ " ") ["Verb", "'" ++ method.name] := by
    cases method <;> decide
  have hstatus := isWord_decimal status
  have hjson : Spells " '[JSON] " ["'", "[", "JSON", "]"] := by decide
  have hcontent := hstatus.endsPlainly.spells_append hjson (by decide)
  rw [hstatus.lexemes_eq] at hcontent
  simpa only [String.append_assoc, List.cons_append, List.nil_append] using hmethod.append hcontent

/-- A part is whole lexemes and a type behind them. -/
theorem exists_lead (part : RoutePart) :
    ∃ text, part.text = text ++ part.tail ∧ Spells text part.lead := by
  cases part with
  | literal component => exact ⟨_, String.append_empty.symm, spells_literal component⟩
  | marker text => exact ⟨"", String.empty_append.symm, rfl⟩
  | capture name type => exact ⟨_, rfl, spells_named ["Capture"] (by decide) name⟩
  | queryList name item =>
    exact ⟨_, rfl, spells_named ["QueryParams"] (by decide) name⟩
  | value carrier name type required =>
    cases required with
    | true =>
      have hcombinator : Spells (carrier.combinator ++ "' '[Required, Strict] ")
          [carrier.combinator ++ "'", "'", "[", "Required", ",", "Strict", "]"] := by
        cases carrier <;> decide
      exact ⟨_, rfl, spells_named _ hcombinator name⟩
    | false =>
      have hcombinator : Spells (carrier.combinator ++ " ") [carrier.combinator] := by
        cases carrier <;> decide
      exact ⟨_, rfl, spells_named _ hcombinator name⟩
  | cookies => exact ⟨"Header \"Cookie\" ", rfl, by decide⟩
  | body type required =>
    cases required with
    | true => exact ⟨_, rfl, rfl⟩
    | false => exact ⟨_, rfl, rfl⟩
  | verb method status result => exact ⟨_, rfl, spells_verb method status⟩

theorem lexemes_text (part : RoutePart) :
    lexemes part.text = part.lead ++ lexemes part.tail := by
  obtain ⟨text, htext, hspells⟩ := part.exists_lead
  rw [htext, hspells.lexemes_append]

theorem phrase_lead (part : RoutePart) : ∀ mark ∈ separators, Phrase mark part.lead := by
  cases part with
  | literal component => exact phrase_named [] (by decide) component
  | marker text => exact fun mark _ => phrase_nil mark
  | capture name type => exact phrase_named ["Capture"] (by decide) name
  | queryList name item => exact phrase_named ["QueryParams"] (by decide) name
  | value carrier name type required =>
    have hcombinator : ∀ mark ∈ separators, Phrase mark [carrier.combinator] ∧ Phrase mark
        [carrier.combinator ++ "'", "'", "[", "Required", ",", "Strict", "]"] := by
      cases carrier <;> decide
    cases required with
    | true => exact phrase_named _ (fun mark hmark => (hcombinator mark hmark).2) name
    | false => exact phrase_named _ (fun mark hmark => (hcombinator mark hmark).1) name
  | cookies => decide
  | body type required =>
    cases required <;> simp only [lead] <;> decide
  | verb method status result =>
    intro mark hmark
    have hmethod : isPlainLexeme ("'" ++ method.name) = true := by cases method <;> decide
    have hplain : ∀ lexeme ∈ ["'" ++ method.name, Text.decimal status],
        isPlainLexeme lexeme = true := by
      simp [hmethod, (isWord_decimal status).isPlainLexeme]
    have hcontent : ∀ mark ∈ separators, Phrase mark ["Verb"] ∧
        Phrase mark ["'", "[", "JSON", "]"] := by decide
    exact ((hcontent mark hmark).1.append (phrase_of_plain hmark hplain)).append
      (hcontent mark hmark).2

/-- A part with words for names that is no marker, whose text may be anything. -/
structure Readable (part : RoutePart) : Prop where
  words : ∀ type ∈ part.types, HasWords type
  marker : ∀ text, part ≠ .marker text

section Readable

variable {part : RoutePart} (h : part.Readable)
include h

theorem phraseText_tail : PhraseText part.tail := by
  cases part with
  | capture _ type | queryList _ type | value _ _ type _ | body type _ =>
    exact phraseText_atomText (h.words type List.mem_cons_self)
  | cookies => exact IsWord.phraseText (by decide)
  | verb method status result => exact phraseText_result h.words
  | literal component =>
    have hempty : Spells "" [] := rfl
    exact hempty.phraseText (by decide)
  | marker text => exact absurd rfl (h.marker text)

/-- A part is read as one token. -/
theorem phraseText_text : PhraseText part.text := by
  obtain ⟨text, htext, hspells⟩ := part.exists_lead
  exact htext ▸ (phraseText_tail h).behind hspells part.phrase_lead

theorem phraseText_argument : ∀ argument ∈ part.argument?, PhraseText argument := by
  have hmaybe : ∀ type, HasWords type → PhraseText ("Maybe " ++ atomText type) :=
    fun type htype => (phraseText_atomText htype).behind spells_maybe (by decide)
  cases part with
  | literal component => simp [argument?]
  | marker text => exact absurd rfl (h.marker text)
  | capture name type =>
    simpa [argument?] using phraseText_typeText (h.words type List.mem_cons_self)
  | queryList name item =>
    have hitem := phraseText_typeText (h.words item List.mem_cons_self)
    have hpair : ("[", "]") ∈ brackets := by decide
    simpa [argument?] using hitem.bracketed hpair
  | value carrier name type required =>
    have htype := h.words type List.mem_cons_self
    cases required with
    | true => simpa [argument?] using phraseText_typeText htype
    | false => simpa [argument?] using hmaybe type htype
  | cookies =>
    rintro _ ⟨⟩
    exact hmaybe .string hasWords_string
  | body type required =>
    have htype := h.words type List.mem_cons_self
    cases required with
    | true => simpa [argument?] using phraseText_typeText htype
    | false => simpa [argument?] using hmaybe type htype
  | verb method status result =>
    have hanswer : Spells "m " ["m"] := by decide
    simpa [argument?] using (phraseText_result h.words).behind hanswer (by decide)

/-- The argument of a part is what its token stands for. -/
theorem argumentOf?_text : argumentOf? (lexemes part.text) = part.argument?.map lexemes := by
  rw [lexemes_text]
  cases part with
  | literal component => exact argumentOf?_singleton _
  | marker text => exact absurd rfl (h.marker text)
  | capture name type =>
    have htype := peel_atomText (h.words type List.mem_cons_self)
    simp only [lead, tail, List.cons_append, List.nil_append, argumentOf?, htype, argument?,
      Option.map_some]
  | queryList name item =>
    have hitem := h.words item List.mem_cons_self
    have hpair : ("[", "]") ∈ brackets := by decide
    have hlist := spells_bracketed (phraseText_typeText hitem).ends hpair
    simp only [lead, tail, List.cons_append, List.nil_append, argumentOf?, peel_atomText hitem,
      argument?, Option.map_some, hlist.lexemes_eq]
  | value carrier name type required =>
    have htype := peel_atomText (h.words type List.mem_cons_self)
    cases required with
    | true =>
      cases carrier <;> simp only [lead, tail, Carrier.combinator, String.reduceAppend,
        List.cons_append, List.nil_append, argumentOf?, htype, argument?, Option.map_some]
    | false =>
      cases carrier <;> simp only [lead, tail, Carrier.combinator, List.cons_append,
        List.nil_append, argumentOf?, argument?, Option.map_some, spells_maybe.lexemes_append]
  | cookies =>
    simp only [lead, tail, List.cons_append, List.nil_append, argumentOf?, argument?]
    rfl
  | body type required =>
    have htype := peel_atomText (h.words type List.mem_cons_self)
    cases required with
    | true =>
      simp only [lead, tail, List.cons_append, List.nil_append, argumentOf?, htype, argument?,
        Option.map_some]
    | false =>
      simp only [lead, tail, List.cons_append, List.nil_append, argumentOf?, argument?,
        Option.map_some, spells_maybe.lexemes_append]
  | verb method status result =>
    have hanswer : Spells "m " ["m"] := by decide
    simp only [lead, tail, List.cons_append, List.nil_append, argumentOf?, argument?,
      Option.map_some, hanswer.lexemes_append]

/-- Only a fixed component stands for nothing. -/
theorem argumentOf?_eq_none_iff :
    argumentOf? (lexemes part.text) = none ↔
      ∃ component, lexemes part.text = [Haskell.literal component] := by
  constructor
  · rw [argumentOf?_text h, Option.map_eq_none_iff]
    intro hnone
    cases part with
    | literal component => exact ⟨component, (spells_literal component).lexemes_eq⟩
    | marker text => exact absurd rfl (h.marker text)
    | value carrier name type required => cases required <;> simp [argument?] at hnone
    | body type required => cases required <;> simp [argument?] at hnone
    | capture _ _ | queryList _ _ | cookies | verb _ _ _ => simp [argument?] at hnone
  · rintro ⟨component, heq⟩
    rw [heq, argumentOf?_singleton]

end Readable

/-! ### Names -/

/-- The name in a part, and where the value travels: all cookies in one header. -/
def name? : RoutePart → Option (Location × String)
  | .capture name _ => some (.path, name)
  | .queryList name _ | .value .query name _ _ => some (.query, name)
  | .value .header name _ _ => some (.header, name)
  | .cookies => some (.header, "Cookie")
  | .literal _ | .marker _ | .body .. | .verb .. => none

theorem isLiteral_literal (text : String) : isLiteral (Haskell.literal text) = true := by
  simp [isLiteral, Haskell.literal]

/-- Behind the combinator of a required value there is no literal but its name. -/
theorem find?_isLiteral_required (name : String) (rest : List String) :
    List.find? isLiteral ("'" :: "[" :: "Required" :: "," :: "Strict" :: "]" ::
      Haskell.literal name :: rest) = some (Haskell.literal name) := by
  have hmodifiers : ∀ lexeme ∈ ["'", "[", "Required", ",", "Strict", "]"],
      isLiteral lexeme = false := by decide
  have hnone : ["'", "[", "Required", ",", "Strict", "]"].find? isLiteral = none := by
    rw [List.find?_eq_none]
    exact fun lexeme hlexeme => by simp [hmodifiers lexeme hlexeme]
  calc
    _ = (["'", "[", "Required", ",", "Strict", "]"] ++ Haskell.literal name :: rest).find?
        isLiteral := rfl
    _ = some (Haskell.literal name) := by
      rw [List.find?_append, hnone, Option.none_or,
        List.find?_cons_of_pos (isLiteral_literal name)]

theorem lookup_literal (text : String) : locations.lookup (Haskell.literal text) = none := by
  rw [List.lookup_eq_none_iff]
  intro entry hentry
  have hcombinators : ∀ entry ∈ locations, isLiteral entry.1 = false := by decide
  rw [bne_iff_ne]
  intro heq
  have hliteral := isLiteral_literal text
  rw [heq, hcombinators entry hentry] at hliteral
  exact Bool.false_ne_true hliteral

/-- The name in a part is the name in its token. -/
theorem tokenName?_text {part : RoutePart} (h : part.Readable) :
    tokenName? (lexemes part.text) =
      part.name?.map fun (location, name) => (location, Haskell.literal name) := by
  rw [lexemes_text]
  cases part with
  | literal component => simp [lead, tokenName?, lookup_literal, name?]
  | marker text => exact absurd rfl (h.marker text)
  | capture name type => simp [lead, tokenName?, locations, isLiteral_literal, name?]
  | queryList name type =>
    simp [lead, tokenName?, locations, List.lookup_cons, isLiteral_literal, name?]
  | value carrier name type required =>
    cases carrier <;> cases required <;>
      simp [lead, tokenName?, locations, List.lookup_cons, Carrier.combinator, isLiteral_literal,
        find?_isLiteral_required, name?]
  | cookies => simp [lead, tokenName?, locations, List.lookup_cons, isLiteral_literal, name?]
  | body type required =>
    cases required <;> simp [lead, tokenName?, locations, List.lookup_cons, name?]
  | verb method status result => simp [lead, tokenName?, locations, List.lookup_cons, name?]

end RoutePart

end ServantGen.Haskell
