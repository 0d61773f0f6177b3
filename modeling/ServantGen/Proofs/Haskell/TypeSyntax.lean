import ServantGen.Haskell.TypeText
import ServantGen.Proofs.Closure.Inventory
import ServantGen.Proofs.Text.Characters

/-!
# The syntax of types

A type of the language is a name, a list of a type, or a type applied to arguments, where an
argument that is itself applied stands in parentheses. The grammar says which tokens stand for
which type, and a reader that goes through the tokens once, with a stack of the brackets that are
open, finds a type exactly if the grammar allows it, so that no text stands for two.

The writer never looks at a type to see whether it needs parentheses: it looks for a blank outside
of brackets in the text it has already written. The brackets of a written type are balanced and
every blank of a list is inside of them, so what it finds is whether the type is an application.
-/

namespace ServantGen.Haskell

/-! ## The grammar -/

/-- A type of the language, read from its text. -/
inductive TypeTerm where
  | name (text : String)
  | list (item : TypeTerm)
  | apply (function argument : TypeTerm)
  deriving DecidableEq, Repr

/-- What a type can stand between. -/
inductive Enclosure where
  | brackets
  | parentheses
  deriving DecidableEq, Repr

namespace Enclosure

def first : Enclosure → Char
  | brackets => '['
  | parentheses => '('

def last : Enclosure → Char
  | brackets => ']'
  | parentheses => ')'

def write : Enclosure → String → String
  | brackets, text => "[" ++ text ++ "]"
  | parentheses, text => "(" ++ text ++ ")"

@[simp] theorem toList_write (kind : Enclosure) (text : String) :
    (kind.write text).toList = kind.first :: (text.toList ++ [kind.last]) := by
  cases kind <;> simp [write, first, last]

/-- What an enclosed type stands for: brackets make a list of it, parentheses leave it as it is. -/
def enclose : Enclosure → TypeTerm → TypeTerm
  | brackets, term => .list term
  | parentheses, term => term

end Enclosure

inductive TypeToken where
  | opening (kind : Enclosure)
  | closing (kind : Enclosure)
  | name (text : String)
  deriving DecidableEq, Repr

inductive TypePhrase where
  /-- A type, which may be an application. -/
  | type
  /-- A type that can be an argument. -/
  | atom
  deriving DecidableEq, Repr

/-- The tokens stand for a type. Application groups to the left. -/
inductive Derives : TypePhrase → List TypeToken → TypeTerm → Prop where
  | name (text : String) : Derives .atom [.name text] (.name text)
  | enclosed (kind : Enclosure) {tokens : List TypeToken} {term : TypeTerm}
      (inner : Derives .type tokens term) :
      Derives .atom (.opening kind :: tokens ++ [.closing kind]) (kind.enclose term)
  | single {tokens : List TypeToken} {term : TypeTerm} (atom : Derives .atom tokens term) :
      Derives .type tokens term
  | apply {tokens more : List TypeToken} {function argument : TypeTerm}
      (left : Derives .type tokens function) (right : Derives .atom more argument) :
      Derives .type (tokens ++ more) (.apply function argument)

/-! ## Tokens -/

def markToken? : Char → Option TypeToken
  | '[' => some (.opening .brackets)
  | ']' => some (.closing .brackets)
  | '(' => some (.opening .parentheses)
  | ')' => some (.closing .parentheses)
  | _ => none

def nameToken (word : List Char) : List TypeToken :=
  if word = [] then [] else [.name (String.ofList word)]

/-- The tokens of a text behind a name of which some characters were read. -/
def tokensFrom : List Char → List Char → List TypeToken
  | word, [] => nameToken word
  | word, c :: cs =>
    if c = ' ' then nameToken word ++ tokensFrom [] cs
    else
      match markToken? c with
      | some mark => nameToken word ++ mark :: tokensFrom [] cs
      | none => tokensFrom (word ++ [c]) cs

/-- The brackets, the parentheses and the names of a text. A blank only ends a name. -/
def typeTokens (text : String) : List TypeToken :=
  tokensFrom [] text.toList

/-! ## The reader -/

/-- What was read of a type: the part behind the last open bracket, and for every open bracket, the
innermost first, its kind and the part before it. -/
structure TypeReading where
  read : Option TypeTerm
  around : List (Enclosure × Option TypeTerm)
  deriving DecidableEq, Repr

namespace TypeReading

/-- A type is read: a first one is a function, or all there is, and any other an argument. -/
def put (reading : TypeReading) (term : TypeTerm) : TypeReading :=
  { reading with
    read := some (match reading.read with
      | none => term
      | some function => .apply function term) }

def step? (reading : TypeReading) : TypeToken → Option TypeReading
  | .name text => some (reading.put (.name text))
  | .opening kind => some ⟨none, (kind, reading.read) :: reading.around⟩
  | .closing kind =>
    match reading with
    | ⟨some term, (opened, before) :: around⟩ =>
      if opened = kind then some (put ⟨before, around⟩ (kind.enclose term)) else none
    | _ => none

end TypeReading

def parseType? (text : String) : Option TypeTerm := do
  let reading ← (typeTokens text).foldlM TypeReading.step? ⟨none, []⟩
  if reading.around = [] then reading.read else none

example : parseType? "Either (Maybe a) [b]" = some
    (.apply (.apply (.name "Either") (.apply (.name "Maybe") (.name "a")))
      (.list (.name "b"))) := by
  decide +kernel

/-! ### The reader follows the grammar -/

namespace TypeReading

variable {tokens more : List TypeToken} {reading next : TypeReading} {term : TypeTerm}

/-- What the grammar allows is read, an argument anywhere and a type where one begins. -/
theorem foldlM_step?_of_derives {phrase : TypePhrase} (h : Derives phrase tokens term)
    (hbegins : phrase = .type → reading.read = none) :
    tokens.foldlM step? reading = some (reading.put term) := by
  induction h generalizing reading with
  | name text => rfl
  | @enclosed kind tokens term _ ih =>
    rw [List.cons_append, List.foldlM_cons, step?, Option.bind_eq_bind, Option.bind_some,
      List.foldlM_append, ih fun _ => rfl, Option.bind_eq_bind, Option.bind_some]
    simp [put, step?]
  | single _ ih => exact ih nofun
  | @apply tokens more function argument _ _ hleft hright =>
    rw [List.foldlM_append, hleft hbegins, Option.bind_eq_bind, Option.bind_some, hright nofun]
    simp [put, hbegins rfl]

/-- What was read is what the grammar allows in front of, and between, the open brackets. -/
inductive Follows : List TypeToken → TypeReading → Prop where
  | start : Follows [] ⟨none, []⟩
  | opened (kind : Enclosure) {tokens : List TypeToken} {before : Option TypeTerm}
      {around : List (Enclosure × Option TypeTerm)} (outside : Follows tokens ⟨before, around⟩) :
      Follows (tokens ++ [.opening kind]) ⟨none, (kind, before) :: around⟩
  | read {tokens more : List TypeToken} {term : TypeTerm}
      {around : List (Enclosure × Option TypeTerm)} (outside : Follows tokens ⟨none, around⟩)
      (inside : Derives .type more term) : Follows (tokens ++ more) ⟨some term, around⟩

/-- A bracket is closed behind a type, and is the one that was opened last. -/
theorem exists_of_step?_closing {kind : Enclosure}
    (h : reading.step? (.closing kind) = some next) :
    ∃ term before around, reading = ⟨some term, (kind, before) :: around⟩ ∧
      next = put ⟨before, around⟩ (kind.enclose term) := by
  obtain ⟨_ | term, _ | ⟨⟨opened, before⟩, around⟩⟩ := reading
  iterate 3 simp [step?] at h
  obtain ⟨rfl, rfl⟩ : opened = kind ∧ put ⟨before, around⟩ (kind.enclose term) = next := by
    simpa [step?] using h
  exact ⟨term, before, around, rfl, rfl⟩

theorem Follows.put (h : Follows tokens reading) (hterm : Derives .atom more term) :
    Follows (tokens ++ more) (reading.put term) := by
  obtain ⟨read, around⟩ := reading
  cases read with
  | none => exact .read h (.single hterm)
  | some function =>
    obtain _ | _ | ⟨outside, inside⟩ := h
    rw [List.append_assoc]
    exact .read outside (.apply inside hterm)

theorem Follows.step (h : Follows tokens reading) {token : TypeToken}
    (hstep : reading.step? token = some next) : Follows (tokens ++ [token]) next := by
  cases token with
  | name text =>
    obtain rfl := Option.some.inj hstep
    exact h.put (.name text)
  | opening kind =>
    obtain rfl := Option.some.inj hstep
    exact .opened kind h
  | closing kind =>
    obtain ⟨term, before, around, rfl, rfl⟩ := exists_of_step?_closing hstep
    -- Only an open bracket has nothing read behind it and something around it.
    obtain _ | _ | ⟨hopened, inside⟩ := h
    obtain _ | ⟨_, outside⟩ := hopened
    have hput := outside.put (.enclosed kind inside)
    simpa using hput

theorem Follows.run (h : Follows tokens reading)
    (hrun : more.foldlM step? reading = some next) : Follows (tokens ++ more) next := by
  induction more generalizing tokens reading with
  | nil =>
    obtain rfl := Option.some.inj hrun
    simpa using h
  | cons token more ih =>
    obtain ⟨middle, hstep, hrest⟩ := Option.bind_eq_some_iff.1 hrun
    have hmore := ih (h.step hstep) hrest
    simpa using hmore

end TypeReading

/-- The reader finds exactly the types that the grammar allows. -/
theorem parseType?_eq_some_iff {text : String} {term : TypeTerm} :
    parseType? text = some term ↔ Derives .type (typeTokens text) term := by
  constructor
  · intro h
    obtain ⟨⟨read, around⟩, hrun, hend⟩ := Option.bind_eq_some_iff.1 h
    obtain ⟨rfl, rfl⟩ : around = [] ∧ read = some term := by simpa using hend
    have hfollows := TypeReading.Follows.start.run hrun
    rw [List.nil_append] at hfollows
    generalize typeTokens text = tokens at hfollows ⊢
    obtain _ | _ | ⟨outside, inside⟩ := hfollows
    cases outside
    exact inside
  · intro h
    rw [parseType?, TypeReading.foldlM_step?_of_derives h fun _ => rfl]
    rfl

/-- Tokens are a phrase for one type only. -/
theorem Derives.unique {phrase : TypePhrase} {tokens : List TypeToken} {term other : TypeTerm}
    (h : Derives phrase tokens term) (h' : Derives phrase tokens other) : term = other := by
  have hread : tokens.foldlM TypeReading.step? ⟨none, []⟩ =
      some (TypeReading.put ⟨none, []⟩ term) :=
    TypeReading.foldlM_step?_of_derives h fun _ => rfl
  rw [TypeReading.foldlM_step?_of_derives h' fun _ => rfl] at hread
  simpa [TypeReading.put, eq_comm] using hread

/-! ## Names -/

/-- A character that neither ends a name nor encloses a type. -/
def isTypeNameChar (c : Char) : Bool :=
  c ∉ [' ', '[', ']', '(', ')']

structure IsTypeName (name : String) : Prop where
  nonempty : name ≠ ""
  chars : Text.MadeOf isTypeNameChar name

instance (name : String) : Decidable (IsTypeName name) :=
  decidable_of_iff (name ≠ "" ∧ Text.MadeOf isTypeNameChar name)
    ⟨fun ⟨nonempty, chars⟩ => ⟨nonempty, chars⟩, fun h => ⟨h.nonempty, h.chars⟩⟩

structure HasTypeNames (type : DataType) : Prop where
  models : ∀ name ∈ type.models, IsTypeName name
  enums : ∀ entry ∈ type.enums, IsTypeName entry.1

theorem isTypeName_primitiveName (kind : Primitive) : IsTypeName (primitiveName kind) := by
  cases kind <;> decide

/-! ## From texts to tokens -/

section Tokens

variable {phrase : TypePhrase} {cs word rest : List Char} {text more : String}
variable {tokens : List TypeToken} {term : TypeTerm}

theorem tokensFrom_append (h : ∀ c ∈ cs, isTypeNameChar c = true) :
    tokensFrom word (cs ++ rest) = tokensFrom (word ++ cs) rest := by
  induction cs generalizing word with
  | nil => simp
  | cons c cs ih =>
    obtain ⟨hc, hcs⟩ := List.forall_mem_cons.1 h
    have hblank : c ≠ ' ' := by
      rintro rfl
      revert hc
      decide
    have hmark : markToken? c = none := by
      unfold markToken?
      split <;> first | rfl | exact absurd hc (by decide)
    have hword : word ++ c :: cs = word ++ [c] ++ cs := by simp
    rw [List.cons_append, tokensFrom, if_neg hblank, hmark, hword]
    exact ih hcs

/-- A name ends where a text does not go on with a character of names. -/
theorem tokensFrom_eq (h : rest.head?.all (!isTypeNameChar ·) = true) (word : List Char) :
    tokensFrom word rest = nameToken word ++ tokensFrom [] rest := by
  cases rest with
  | nil => simp [tokensFrom, nameToken]
  | cons c rest =>
    have hc : c = ' ' ∨ c = '[' ∨ c = ']' ∨ c = '(' ∨ c = ')' := by
      simpa [isTypeNameChar] using h
    obtain rfl | rfl | rfl | rfl | rfl := hc <;> rfl

/-- A text is made of the tokens of a phrase, wherever it stands before anything but more of a
name. -/
def ReadsAsPhrase (phrase : TypePhrase) (text : String) (term : TypeTerm) : Prop :=
  ∃ tokens, Derives phrase tokens term ∧
    ∀ rest : List Char, rest.head?.all (!isTypeNameChar ·) = true →
      tokensFrom [] (text.toList ++ rest) = tokens ++ tokensFrom [] rest

theorem ReadsAsPhrase.derives (h : ReadsAsPhrase phrase text term) :
    Derives phrase (typeTokens text) term := by
  obtain ⟨tokens, hderives, htokens⟩ := h
  have htext : typeTokens text = tokens := by
    simpa [typeTokens, tokensFrom, nameToken] using htokens [] rfl
  exact htext ▸ hderives

theorem ReadsAsPhrase.type (h : ReadsAsPhrase phrase text term) :
    ReadsAsPhrase .type text term := by
  obtain ⟨tokens, hderives, htokens⟩ := h
  cases phrase with
  | type => exact ⟨tokens, hderives, htokens⟩
  | atom => exact ⟨tokens, .single hderives, htokens⟩

theorem IsTypeName.readsAsPhrase (h : IsTypeName text) :
    ReadsAsPhrase .atom text (.name text) := by
  refine ⟨_, .name text, fun rest hrest => ?_⟩
  have hword : nameToken text.toList = [.name text] := by
    simp [nameToken, h.nonempty]
  rw [tokensFrom_append h.chars, List.nil_append, tokensFrom_eq hrest, hword]

theorem ReadsAsPhrase.enclosed (kind : Enclosure) (h : ReadsAsPhrase .type text term) :
    ReadsAsPhrase .atom (kind.write text) (kind.enclose term) := by
  obtain ⟨tokens, hderives, htokens⟩ := h
  refine ⟨_, .enclosed kind hderives, fun rest _ => ?_⟩
  have hfirst : ∀ cs, tokensFrom [] (kind.first :: cs) = .opening kind :: tokensFrom [] cs := by
    cases kind <;> exact fun _ => rfl
  have hlast : ∀ cs, tokensFrom [] (kind.last :: cs) = .closing kind :: tokensFrom [] cs := by
    cases kind <;> exact fun _ => rfl
  have hend : (kind.last :: rest).head?.all (!isTypeNameChar ·) = true := by
    cases kind <;> rfl
  have htext : (kind.write text).toList ++ rest =
      kind.first :: (text.toList ++ kind.last :: rest) := by simp
  rw [htext, hfirst, htokens _ hend, hlast]
  simp

theorem ReadsAsPhrase.apply {function argument : TypeTerm}
    (h : ReadsAsPhrase .type text function) (h' : ReadsAsPhrase .atom more argument) :
    ReadsAsPhrase .type (text ++ " " ++ more) (.apply function argument) := by
  obtain ⟨tokens, hderives, htokens⟩ := h
  obtain ⟨tokens', hderives', htokens'⟩ := h'
  refine ⟨_, .apply hderives hderives', fun rest hrest => ?_⟩
  have hblank : ∀ cs, tokensFrom [] (' ' :: cs) = tokensFrom [] cs := fun _ => rfl
  have htext : (text ++ " " ++ more).toList ++ rest =
      text.toList ++ ' ' :: (more.toList ++ rest) := by simp
  rw [htext, htokens _ rfl, hblank, htokens' rest hrest, List.append_assoc]

end Tokens

/-! ## Where the blanks are -/

theorem typeText_map (value : DataType) :
    typeText (.map value) = "Map" ++ " " ++ "Text" ++ " " ++ atomText value :=
  rfl

theorem typeText_optional (inner : DataType) :
    typeText (.optional inner) = "Maybe" ++ " " ++ atomText inner :=
  rfl

/-- Whether a type is written as a function and its arguments. -/
def isApplied : DataType → Bool
  | .map _ | .optional _ => true
  | _ => false

section Blanks

variable {least other : Nat} {cs : List Char} {text more : String} {type : DataType}

/-- Inside of so many brackets, a text has no outer blank and closes as many brackets as it
opens. -/
def Balances (least : Nat) (cs : List Char) : Prop :=
  ∀ depth rest, least ≤ depth → hasOuterBlank depth (cs ++ rest) = hasOuterBlank depth rest

theorem Balances.mono (h : Balances least cs) (hle : least ≤ other) : Balances other cs :=
  fun depth rest hdepth => h depth rest (hle.trans hdepth)

theorem balances_of_isTypeNameChar (h : ∀ c ∈ cs, isTypeNameChar c = true) : Balances 0 cs := by
  induction cs with
  | nil => exact fun _ _ _ => rfl
  | cons c cs ih =>
    obtain ⟨hc, hcs⟩ := List.forall_mem_cons.1 h
    obtain ⟨hblank, hbrackets⟩ : c ≠ ' ' ∧ c ≠ '[' ∧ c ≠ ']' ∧ c ≠ '(' ∧ c ≠ ')' := by
      simpa [isTypeNameChar] using hc
    intro depth rest _
    rw [List.cons_append, hasOuterBlank]
    simp only [hblank, hbrackets, decide_false, Bool.or_self, Bool.false_and, Bool.false_eq_true,
      if_false]
    exact ih hcs depth rest (Nat.zero_le depth)

theorem IsTypeName.balances (h : IsTypeName text) : Balances 0 text.toList :=
  balances_of_isTypeNameChar h.chars

theorem Balances.enclosed (kind : Enclosure) (h : Balances 1 text.toList) :
    Balances 0 (kind.write text).toList := by
  intro depth rest _
  have hfirst : ∀ cs, hasOuterBlank depth (kind.first :: cs) = hasOuterBlank (depth + 1) cs := by
    cases kind <;> exact fun _ => rfl
  have hlast : ∀ cs, hasOuterBlank (depth + 1) (kind.last :: cs) = hasOuterBlank depth cs := by
    cases kind <;> exact fun _ => rfl
  rw [Enclosure.toList_write, List.cons_append, hfirst, List.append_assoc,
    h (depth + 1) _ (by omega)]
  exact hlast rest

theorem Balances.apply (h : Balances 1 text.toList) (h' : Balances 0 more.toList) :
    Balances 1 (text ++ " " ++ more).toList := by
  intro depth rest hdepth
  have htext : (text ++ " " ++ more).toList ++ rest =
      text.toList ++ ' ' :: (more.toList ++ rest) := by simp
  have hblank : ∀ cs, hasOuterBlank depth (' ' :: cs) = hasOuterBlank depth cs := by
    simp [hasOuterBlank, show depth ≠ 0 by omega]
  rw [htext, h depth _ hdepth, hblank, h' depth rest (Nat.zero_le depth)]

/-- The text of a type balances; inside of brackets only, if it is applied. -/
def BalancesAsType (type : DataType) : Prop :=
  Balances (if isApplied type then 1 else 0) (typeText type).toList

/-- An application has an outer blank behind its function, and no other type has one. -/
theorem BalancesAsType.hasOuterBlank (h : BalancesAsType type) :
    hasOuterBlank 0 (typeText type).toList = isApplied type := by
  have hclosed : isApplied type = false →
      Haskell.hasOuterBlank 0 (typeText type).toList = false := by
    intro happlied
    have hend := h 0 [] (by simp [happlied])
    simpa [Haskell.hasOuterBlank] using hend
  cases type with
  | map value => simp [typeText, isApplied, Haskell.hasOuterBlank]
  | optional inner => simp [typeText, isApplied, Haskell.hasOuterBlank]
  | primitive _ | array _ | named _ | enum _ _ => exact hclosed rfl

theorem BalancesAsType.atomText (h : BalancesAsType type) : atomText type =
    if isApplied type then Enclosure.parentheses.write (typeText type) else typeText type := by
  rw [Haskell.atomText, asArgument, h.hasOuterBlank]
  rfl

theorem BalancesAsType.inside (h : BalancesAsType type) : Balances 1 (typeText type).toList :=
  h.mono (by split <;> omega)

theorem BalancesAsType.atom (h : BalancesAsType type) :
    Balances 0 (Haskell.atomText type).toList := by
  rw [h.atomText]
  split
  · exact h.inside.enclosed .parentheses
  · rename_i happlied
    simpa [BalancesAsType, happlied] using h

theorem balancesAsType (h : HasTypeNames type) : BalancesAsType type := by
  have hword : ∀ word, IsTypeName word → Balances 1 word.toList :=
    fun word hword => hword.balances.mono (Nat.zero_le 1)
  induction type with
  | primitive kind => exact (isTypeName_primitiveName kind).balances
  | named name => exact (h.models name List.mem_cons_self).balances
  | enum name values => exact (h.enums (name, values) List.mem_cons_self).balances
  | array item ih => exact (ih ⟨h.models, h.enums⟩).inside.enclosed .brackets
  | map value ih =>
    have hfunction : Balances 1 ("Map" ++ " " ++ "Text").toList :=
      (hword "Map" (by decide)).apply (IsTypeName.balances (by decide))
    exact hfunction.apply (ih ⟨h.models, h.enums⟩).atom
  | optional inner ih => exact (hword "Maybe" (by decide)).apply (ih ⟨h.models, h.enums⟩).atom

theorem atomText_eq (h : HasTypeNames type) : atomText type =
    if isApplied type then Enclosure.parentheses.write (typeText type) else typeText type :=
  (balancesAsType h).atomText

end Blanks

/-! ## Reading what was written -/

def typeTerm : DataType → TypeTerm
  | .primitive kind => .name (primitiveName kind)
  | .array item => .list (typeTerm item)
  | .map value => .apply (.apply (.name "Map") (.name "Text")) (typeTerm value)
  | .optional inner => .apply (.name "Maybe") (typeTerm inner)
  | .named name | .enum name _ => .name name

section Written

variable {type : DataType}

/-- A type that is not applied is an argument, and parentheses make one of a type that is. -/
theorem ReadsAsPhrase.atomText (htext : ReadsAsPhrase (if isApplied type then .type else .atom)
    (typeText type) (typeTerm type)) (h : HasTypeNames type) :
    ReadsAsPhrase .atom (atomText type) (typeTerm type) := by
  rw [atomText_eq h]
  cases happlied : isApplied type with
  | true => exact htext.type.enclosed .parentheses
  | false => simpa [happlied] using htext

theorem readsAsPhrase_typeText (h : HasTypeNames type) :
    ReadsAsPhrase (if isApplied type then .type else .atom) (typeText type) (typeTerm type) := by
  have hword : ∀ word, IsTypeName word → ReadsAsPhrase .type word (.name word) :=
    fun word hword => hword.readsAsPhrase.type
  induction type with
  | primitive kind => exact (isTypeName_primitiveName kind).readsAsPhrase
  | named name => exact (h.models name List.mem_cons_self).readsAsPhrase
  | enum name values => exact (h.enums (name, values) List.mem_cons_self).readsAsPhrase
  | array item ih => exact (ih ⟨h.models, h.enums⟩).type.enclosed .brackets
  | map value ih =>
    have hvalue : HasTypeNames value := ⟨h.models, h.enums⟩
    have hfunction := (hword "Map" (by decide)).apply
      (show IsTypeName "Text" by decide).readsAsPhrase
    rw [typeText_map, typeTerm]
    exact hfunction.apply ((ih hvalue).atomText hvalue)
  | optional inner ih =>
    have hinner : HasTypeNames inner := ⟨h.models, h.enums⟩
    rw [typeText_optional, typeTerm]
    exact (hword "Maybe" (by decide)).apply ((ih hinner).atomText hinner)

theorem ReadsAsPhrase.derives_iff {phrase : TypePhrase} {text : String} {term : TypeTerm}
    (h : ReadsAsPhrase phrase text term) (other : TypeTerm) :
    Derives phrase (typeTokens text) other ↔ other = term := by
  constructor
  · intro hother
    exact hother.unique h.derives
  · rintro rfl
    exact h.derives

/-- However deeply it is nested, a type is read back from its text, which stands for no other type.
As an argument exactly a map or an option is put in parentheses, and what is then written is one
argument that stands for the type and for no other. -/
theorem typeText_reads_back (h : HasTypeNames type) :
    parseType? (typeText type) = some (typeTerm type) ∧
      (∀ term, Derives .type (typeTokens (typeText type)) term ↔ term = typeTerm type) ∧
      atomText type = (if isApplied type then "(" ++ typeText type ++ ")" else typeText type) ∧
      ∀ term, Derives .atom (typeTokens (atomText type)) term ↔ term = typeTerm type := by
  have htext := readsAsPhrase_typeText h
  refine ⟨parseType?_eq_some_iff.2 htext.type.derives, htext.type.derives_iff, atomText_eq h, ?_⟩
  exact (htext.atomText h).derives_iff

theorem typeText_reads_back_nested :
    HasTypeNames (.map (.optional (.array (.map (.named "pet-owner"))))) ∧
      parseType? "Map Text (Maybe [Map Text pet-owner])" = some
        (.apply (.apply (.name "Map") (.name "Text")) (.apply (.name "Maybe")
          (.list (.apply (.apply (.name "Map") (.name "Text")) (.name "pet-owner"))))) ∧
      atomText (.map (.optional (.array (.map (.named "pet-owner"))))) =
        "(Map Text (Maybe [Map Text pet-owner]))" := by
  have hnames : HasTypeNames (.map (.optional (.array (.map (.named "pet-owner"))))) :=
    ⟨by simpa using by decide, by simp⟩
  obtain ⟨hparse, _, hatom, _⟩ := typeText_reads_back hnames
  exact ⟨hnames, hparse, hatom⟩

end Written

end ServantGen.Haskell
