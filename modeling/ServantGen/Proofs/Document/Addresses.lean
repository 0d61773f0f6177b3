import ServantGen.Proofs.Document.Sites
import ServantGen.Proofs.Text.Numerals

/-!
# Every node of a document has a reference

A reference to an address spells each step in a token: a key with its tildes and slashes escaped,
a position in decimal digits. No token holds a slash, so a reference comes apart where it was put
together, and every token stands for the step that it spells, whatever characters a key has. So
the reference to the address of a node finds this node.

Positions are read as machine words. The positions in an array that is held in memory are such
words, so each node there has a reference.
-/

namespace ServantGen

/-- Whether a step takes no position beyond the machine words. -/
def Step.isWord : Step → Bool
  | .key _ => true
  | .index position => decide (position ≤ Pointer.maxIndex)

namespace Pointer

variable {tree node : Json} {site below target : Site}

/-! ## Escapes -/

/-- Put a character for a tilde and the mark behind it, wherever the two stand, from left to
right. -/
def replaceMarked (mark c : Char) : List Char → List Char
  | [] => []
  | [d] => [d]
  | d :: e :: rest =>
    if d = '~' ∧ e = mark then c :: replaceMarked mark c rest
    else d :: replaceMarked mark c (e :: rest)

theorem replaceMarked_of_ne {mark c d : Char} (hd : d ≠ '~') (text : List Char) :
    replaceMarked mark c (d :: text) = d :: replaceMarked mark c text := by
  cases text with
  | nil => rfl
  | cons e rest => simp [replaceMarked, hd]

/-- A zero stands first after the slashes are put only if it stood there before. -/
theorem head?_replaceMarked_ne {text : List Char} (h : text.head? ≠ some '0') :
    (replaceMarked '1' '/' text).head? ≠ some '0' := by
  match text with
  | [] | [_] => exact h
  | d :: e :: rest =>
    by_cases hmark : d = '~' ∧ e = '1'
    · simp [replaceMarked, hmark]
    · simpa [replaceMarked, hmark] using h

theorem replaceMarked_tilde {mark c : Char} {text : List Char} (h : text.head? ≠ some mark) :
    replaceMarked mark c ('~' :: text) = '~' :: replaceMarked mark c text := by
  cases text with
  | nil => rfl
  | cons e rest =>
    have hmark : e ≠ mark := fun heq => h (congrArg some heq)
    simp [replaceMarked, hmark]

/-- Tokens are read as if first every slash were put and then every tilde. In the other order a
tilde that is put could be taken for the start of a slash. -/
theorem unescape_eq_replaceMarked (text : List Char) :
    unescape text = replaceMarked '0' '~' (replaceMarked '1' '/' text) := by
  induction text using unescape.induct with
  | case1 => rfl
  | case2 rest ih => simp [unescape, replaceMarked, replaceMarked_of_ne, ih]
  | case3 rest ih =>
    rw [replaceMarked_tilde (by simp), replaceMarked_of_ne (d := '0') (by decide)]
    simp [unescape, replaceMarked, ih]
  | case4 c rest hslash htilde ih =>
    rw [unescape.eq_4 _ _ hslash htilde, ih]
    by_cases hc : c = '~'
    · subst hc
      have hone : rest.head? ≠ some '1' := fun h => by
        obtain ⟨tail, rfl⟩ := List.head?_eq_some_iff.1 h
        exact hslash tail rfl rfl
      have hzero : rest.head? ≠ some '0' := fun h => by
        obtain ⟨tail, rfl⟩ := List.head?_eq_some_iff.1 h
        exact htilde tail rfl rfl
      rw [replaceMarked_tilde hone, replaceMarked_tilde (head?_replaceMarked_ne hzero)]
    · rw [replaceMarked_of_ne hc, replaceMarked_of_ne hc]

/-! ## Tokens -/

def tokenOf : Step → List Char
  | .key name => escape name.toList
  | .index position => Nat.toDigits 10 position

theorem ofAddress_eq (address : Address) :
    ofAddress address =
      String.ofList ('#' :: address.flatMap fun step => '/' :: tokenOf step) := by
  refine congrArg (fun text => String.ofList ('#' :: text)) (List.flatMap_congr ?_)
  rintro (name | position) _ <;> rfl

/-- A slash in a name is never left as it is. -/
theorem slash_notMem_escape (text : List Char) : '/' ∉ escape text := by
  induction text with
  | nil => simp [escape]
  | cons c text ih =>
    by_cases htilde : c = '~'
    · subst htilde
      simpa [escape] using ih
    · by_cases hslash : c = '/'
      · subst hslash
        simpa [escape] using ih
      · have hother : ¬ '/' = c := fun h => hslash h.symm
        simpa [escape, hother] using ih

theorem slash_notMem_tokenOf (step : Step) : '/' ∉ tokenOf step := by
  cases step with
  | key name => exact slash_notMem_escape name.toList
  | index position =>
    intro hslash
    have hdigit := Nat.isDigit_of_mem_toDigits (by decide) (by decide) hslash
    exact absurd hdigit (by decide)

/-- Tokens with slashes between them come apart again. -/
theorem splitBy_tokens (step : Step) (steps : Address) :
    Text.splitBy (· == '/') (tokenOf step ++ steps.flatMap fun step => '/' :: tokenOf step) =
      (step :: steps).map tokenOf := by
  have hjoined : (tokenOf step ++ steps.flatMap fun step => '/' :: tokenOf step) =
      ['/'].intercalate ((step :: steps).map tokenOf) := by
    rw [List.map_cons, intercalate_cons, List.flatMap_map]
  have hslash : ∀ token ∈ (step :: steps).map tokenOf, ∀ c ∈ token, (c == '/') = false := by
    intro token htoken c hc
    obtain ⟨own, -, rfl⟩ := List.mem_map.1 htoken
    exact beq_false_of_ne fun heq => slash_notMem_tokenOf own (heq ▸ hc)
  rw [hjoined]
  exact Text.splitBy_intercalate rfl (by simp) hslash

/-- The reference to an address is walked token by token. -/
theorem find?_ofAddress_eq_walk? (tree : Json) (address : Address) :
    find? tree (ofAddress address) = walk? (Site.root tree) (address.map tokenOf) := by
  cases address with
  | nil => rfl
  | cons step steps =>
    rw [ofAddress_eq, ← splitBy_tokens step steps, List.flatMap_cons, List.cons_append]
    unfold find?
    rw [String.toList_ofList]
    rfl

/-! ## Walking -/

/-- A token that spells a key leads to the member under the key. -/
theorem walk?_cons_of_get? {token : List Char}
    (h : site.get? (String.ofList (unescape token)) = some below)
    (tokens : List (List Char)) : walk? site (token :: tokens) = walk? below tokens := by
  obtain ⟨address, node⟩ := site
  cases node with
  | object fields =>
    have hstep : stepOf? (.object fields) token =
        some (.key (String.ofList (unescape token))) := rfl
    have hbelow : Site.step? ⟨address, .object fields⟩ (.key (String.ofList (unescape token))) =
        some below := h
    simp only [walk?, hstep, Option.bind_eq_bind, Option.bind_some, hbelow]
  | _ => simp [Site.get?, Site.step?, Json.step?, Json.get?] at h

/-- A step that is taken at a token: the token spells a key, or a position as a machine word. -/
def Spells (token : List Char) : Step → Prop
  | .key name => String.ofList (unescape token) = name
  | .index position => Text.numeral? maxIndex (unescape token) = some position

theorem spells_of_stepOf? {token : List Char} {step : Step} (h : stepOf? node token = some step) :
    Spells token step := by
  cases node with
  | object fields =>
    obtain rfl := Option.some.inj h
    rfl
  | array items =>
    obtain ⟨position, hposition, rfl⟩ := Option.map_eq_some_iff.1 h
    exact hposition
  | _ => simp [stepOf?] at h

theorem isWord_of_spells {token : List Char} {step : Step} (h : Spells token step) :
    step.isWord = true := by
  cases step with
  | key name => rfl
  | index position => exact decide_eq_true (Text.le_of_numeral?_eq_some h)

/-- A walk takes one step for each token, and ends at the node to which its steps lead. -/
theorem address_of_walk? {tokens : List (List Char)} (h : walk? site tokens = some target) :
    ∃ steps, target.address = site.address ++ steps ∧ site.node.at? steps = some target.node ∧
      List.Forall₂ Spells tokens steps := by
  induction tokens generalizing site with
  | nil =>
    obtain rfl := Option.some.inj h
    exact ⟨[], (List.append_nil _).symm, rfl, .nil⟩
  | cons token tokens ih =>
    obtain ⟨step, hstep, hrest⟩ := Option.bind_eq_some_iff.1 h
    obtain ⟨below, hbelow, htarget⟩ := Option.bind_eq_some_iff.1 hrest
    obtain ⟨node, hnode, rfl⟩ := Option.map_eq_some_iff.1 hbelow
    obtain ⟨steps, haddress, hend, hsteps⟩ := ih htarget
    refine ⟨step :: steps, ?_, Option.bind_eq_some_iff.2 ⟨node, hnode, hend⟩,
      .cons (spells_of_stepOf? hstep) hsteps⟩
    rw [haddress, List.append_assoc, List.singleton_append]

/-- A walk from the root to an address of keys has the keys for its tokens. -/
theorem map_unescape_of_walk? {tokens : List (List Char)} {keys : List String}
    (h : walk? (Site.root tree) tokens = some target) (haddress : target.address = keys.map .key) :
    tokens.map (fun token => String.ofList (unescape token)) = keys := by
  obtain ⟨steps, hsteps, -, hspells⟩ := address_of_walk? h
  obtain rfl : steps = keys.map .key := hsteps.symm.trans haddress
  rw [List.forall₂_map_right_iff] at hspells
  rw [← List.forall₂_eq_eq_eq, List.forall₂_map_left_iff]
  exact hspells

/-- A text without tildes has nothing escaped. -/
theorem unescape_eq_self {text : List Char} (h : '~' ∉ text) : unescape text = text := by
  induction text with
  | nil => rfl
  | cons c text ih =>
    obtain ⟨hc, htext⟩ := not_or.1 (mt List.mem_cons.2 h)
    have hother : ¬ c = '~' := fun heq => hc heq.symm
    simp [unescape, hother, ih htext]

/-- The token for a position is the position in digits. -/
theorem unescape_toDigits (position : Nat) :
    unescape (Nat.toDigits 10 position) = Nat.toDigits 10 position := by
  refine unescape_eq_self fun htilde => ?_
  have hdigit := Nat.isDigit_of_mem_toDigits (by decide) (by decide) htilde
  exact absurd hdigit (by decide)

/-- The token for a step that can be taken at a node stands there for this step. -/
theorem stepOf?_tokenOf {step : Step} {next : Json} (hword : step.isWord = true)
    (hstep : node.step? step = some next) : stepOf? node (tokenOf step) = some step := by
  cases node with
  | object fields =>
    cases step with
    | key name => simp [stepOf?, tokenOf]
    | index position => simp [Json.step?] at hstep
  | array items =>
    cases step with
    | key name => simp [Json.step?, Json.get?] at hstep
    | index position =>
      have hposition : position ≤ maxIndex := of_decide_eq_true hword
      simp [stepOf?, tokenOf, unescape_toDigits, Text.numeral?_toDigits, hposition]
  | _ => cases step <;> simp [Json.step?, Json.get?] at hstep

/-- The tokens of an address lead to the node there. -/
theorem walk?_tokens {address : Address} (hwords : address.all Step.isWord = true)
    (h : site.node.at? address = some node) :
    walk? site (address.map tokenOf) = some ⟨site.address ++ address, node⟩ := by
  induction address generalizing site with
  | nil =>
    obtain rfl := Option.some.inj h
    rw [List.append_nil]
    rfl
  | cons step steps ih =>
    obtain ⟨hword, hwords⟩ := Bool.and_eq_true_iff.1 hwords
    obtain ⟨next, hnext, hrest⟩ := Option.bind_eq_some_iff.1 h
    have hbelow : site.step? step = some ⟨site.address ++ [step], next⟩ := by
      simp [Site.step?, hnext]
    have htarget : walk? ⟨site.address ++ [step], next⟩ (steps.map tokenOf) = _ := ih hwords hrest
    rw [List.append_assoc, List.singleton_append] at htarget
    simp only [List.map_cons, walk?, stepOf?_tokenOf hword hnext, Option.bind_eq_bind,
      Option.bind_some, hbelow, htarget]

/-- The reference to an address finds a node at that address just when the node stands there. Of
all addresses only those with a position that no array in memory has are never found. -/
theorem find?_ofAddress_eq_some_iff (tree : Json) (address : Address) (node : Json) :
    find? tree (ofAddress address) = some ⟨address, node⟩ ↔
      tree.at? address = some node ∧ address.all Step.isWord = true := by
  rw [find?_ofAddress_eq_walk?]
  constructor
  · intro h
    obtain ⟨steps, haddress, hnode, hspells⟩ := address_of_walk? h
    obtain rfl : address = steps := haddress
    rw [List.forall₂_map_left_iff, List.forall₂_same] at hspells
    exact ⟨hnode, List.all_eq_true.2 fun step hstep => isWord_of_spells (hspells step hstep)⟩
  · rintro ⟨hnode, hwords⟩
    have hwalk : walk? (Site.root tree) (address.map tokenOf) = some ⟨[] ++ address, node⟩ :=
      walk?_tokens hwords hnode
    exact hwalk

example : ofAddress [.key "", .key "a~1b", .key "~01", .index 1, .key "/"] =
    "#//a~01b/~001/1/~1" := by decide +kernel

end Pointer

end ServantGen
