import ServantGen.Proofs.Code
import ServantGen.Proofs.Haskell.Phrases
import ServantGen.Proofs.Outcomes

/-!
# Declarations and alternatives

A reader of a module groups its lines into declarations: a line with lexemes at the margin begins
one, and lines further in go on with it. The right-hand side of a definition may be a list of
alternatives, which nest to the right unless parentheses say otherwise.
-/

namespace ServantGen.Haskell

/-! ## Declarations -/

def beginsDeclaration (line : String) : Bool :=
  line.toList.head? != some ' ' && !(lexemes line).isEmpty

/-- The lexemes of the lines that go on with a declaration begun before, and of the declarations
behind them. -/
def readLines : List String → List String × List (List String)
  | [] => ([], [])
  | line :: lines =>
    let (more, others) := readLines lines
    if beginsDeclaration line then ([], (lexemes line ++ more) :: others)
    else (lexemes line ++ more, others)

def declarationsOf (text : String) : List (List String) :=
  (readLines (Text.splitOn '\n' text)).2

/-- The right-hand side of the definition of `left`, if there is exactly one. -/
def definition? (left : List String) (declarations : List (List String)) : Option (List String) :=
  match declarations.filter ((left ++ ["="]).isPrefixOf ·) with
  | [declaration] => some (declaration.drop (left.length + 1))
  | _ => none

def ReadsAs (lines : List String) (declarations : List (List String)) : Prop :=
  readLines lines = ([], declarations)

instance (lines : List String) (declarations : List (List String)) :
    Decidable (ReadsAs lines declarations) :=
  inferInstanceAs (Decidable (_ = _))

section Lines

variable {line : String} {lines others : List String} {first rest : List (List String)}

theorem readLines_append (h : ReadsAs others rest) (lines : List String) :
    readLines (lines ++ others) = ((readLines lines).1, (readLines lines).2 ++ rest) := by
  induction lines with
  | nil => exact h
  | cons line lines ih =>
    rw [List.cons_append, readLines, ih, readLines]
    dsimp only
    split <;> rfl

theorem readsAs_nil : ReadsAs [] [] := rfl

theorem ReadsAs.append (h : ReadsAs lines first) (h' : ReadsAs others rest) :
    ReadsAs (lines ++ others) (first ++ rest) := by
  unfold ReadsAs
  rw [readLines_append h', h]

/-- A line without lexemes belongs to no declaration. -/
theorem readsAs_silent (h : lexemes line = []) : ReadsAs [line] [] := by
  simp [ReadsAs, readLines, beginsDeclaration, h]

/-- Lines further in add their lexemes. -/
theorem readLines_inside (h : ∀ line ∈ lines, beginsDeclaration line = false) :
    readLines lines = (lines.flatMap lexemes, []) := by
  induction lines with
  | nil => rfl
  | cons line lines ih =>
    obtain ⟨hline, hlines⟩ := List.forall_mem_cons.1 h
    simp [readLines, hline, ih hlines]

/-- A declaration with the lines further in behind it. -/
theorem readsAs_declaration (hline : beginsDeclaration line = true)
    (hlines : ∀ line ∈ lines, beginsDeclaration line = false) :
    ReadsAs (line :: lines) [lexemes line ++ lines.flatMap lexemes] := by
  simp [ReadsAs, readLines, hline, readLines_inside hlines]

/-- Lines of which the first begins a declaration hold whole declarations. -/
theorem readsAs_readLines (hline : beginsDeclaration line = true) (lines : List String) :
    ReadsAs (line :: lines) (readLines (line :: lines)).2 := by
  simp [ReadsAs, readLines, hline]

/-- A declaration begins like the line that begins it. -/
theorem head?_of_mem_readLines {P : Option String → Prop}
    (h : ∀ line ∈ lines, beginsDeclaration line = true → P (lexemes line).head?) :
    ∀ declaration ∈ (readLines lines).2, P declaration.head? := by
  induction lines with
  | nil => simp [readLines]
  | cons line lines ih =>
    obtain ⟨hline, hlines⟩ := List.forall_mem_cons.1 h
    unfold readLines
    dsimp only
    split
    · rename_i hbegins
      have hne : lexemes line ≠ [] := by
        simp only [beginsDeclaration, Bool.and_eq_true, Bool.not_eq_true',
          List.isEmpty_eq_false_iff] at hbegins
        exact hbegins.2
      refine List.forall_mem_cons.2 ⟨?_, ih hlines⟩
      rw [List.head?_append_of_ne_nil _ hne]
      exact hline hbegins
    · exact ih hlines

/-- Lines of which each block holds one declaration. -/
theorem ReadsAs.flatMap {α : Type} {items : List α} {write : α → List String}
    {read : α → List String} (h : ∀ item ∈ items, ReadsAs (write item) [read item]) :
    ReadsAs (items.flatMap write) (items.map read) := by
  induction items with
  | nil => exact readsAs_nil
  | cons item items ih =>
    obtain ⟨hitem, hitems⟩ := List.forall_mem_cons.1 h
    exact hitem.append (ih hitems)

/-- A line begins a declaration if whole lexemes at its start do. -/
theorem beginsDeclaration_append {lead : String} {spelled : List String}
    (hlead : Spells lead spelled) (h : beginsDeclaration lead = true) (rest : String) :
    beginsDeclaration (lead ++ rest) = true := by
  simp only [beginsDeclaration, hlead.lexemes_eq, Bool.and_eq_true, bne_iff_ne,
    Bool.not_eq_true', List.isEmpty_eq_false_iff] at h ⊢
  obtain ⟨hhead, hspelled⟩ := h
  rw [hlead.lexemes_append, String.toList_append]
  refine ⟨?_, by simp [hspelled]⟩
  cases hcs : lead.toList with
  | nil =>
    obtain rfl := String.toList_eq_nil_iff.1 hcs
    exact absurd hlead.lexemes_eq.symm hspelled
  | cons c cs => simpa [hcs] using hhead

/-- A comment has no lexemes. -/
theorem lexemes_comment (h : ['-', '-', ' '] <+: line.toList) : lexemes line = [] := by
  obtain ⟨text, hline⟩ := h
  have hrest : ∀ cs, Reading.comment.scan cs = (.comment, []) := by
    intro cs
    induction cs with
    | nil => rfl
    | cons c cs ih => simp [Reading.scan, Reading.step, ih]
  have hmark : Reading.start.scan ['-', '-', ' '] = (.comment, []) := by decide
  rw [lexemes, ← hline, Reading.scan_append, hmark, hrest]
  rfl

end Lines

/-! ## Definitions -/

section Definitions

variable {left body : List String} {before after : List (List String)}

theorem definition?_eq_some
    (h : ∀ declaration ∈ before ++ after, ¬ (left ++ ["="]) <+: declaration) :
    definition? left (before ++ (left ++ "=" :: body) :: after) = some body := by
  have hothers : ∀ list ⊆ before ++ after,
      list.filter ((left ++ ["="]).isPrefixOf ·) = [] := by
    intro list hsubset
    rw [List.filter_eq_nil_iff]
    intro declaration hmem
    rw [List.isPrefixOf_iff_prefix]
    exact h declaration (hsubset hmem)
  have hown : (left ++ ["="]).isPrefixOf (left ++ "=" :: body) = true := by
    rw [List.isPrefixOf_iff_prefix]
    exact ⟨body, by simp⟩
  unfold definition?
  rw [List.filter_append, List.filter_cons_of_pos hown,
    hothers before (List.subset_append_left _ _), hothers after (List.subset_append_right _ _)]
  simp

end Definitions

/-! ## Alternatives -/

/-- Alternatives, nested as they are written. -/
inductive Alternatives (α : Type) where
  | single (value : α)
  | either (left right : Alternatives α)
  deriving DecidableEq, Repr

namespace Alternatives

variable {α β γ : Type}

def map (f : α → β) : Alternatives α → Alternatives β
  | .single value => .single (f value)
  | .either left right => .either (left.map f) (right.map f)

def leaves : Alternatives α → List α
  | .single value => [value]
  | .either left right => left.leaves ++ right.leaves

/-- Alternatives one after another, nested to the right. -/
def rightward : Alternatives α → List (Alternatives α) → Alternatives α
  | first, [] => first
  | first, next :: rest => .either first (rightward next rest)

/-- The same for a list that may be empty. -/
def rightward? : List (Alternatives α) → Option (Alternatives α)
  | [] => none
  | first :: rest => some (rightward first rest)

/-- Put alternatives in place of values. -/
def substitute? (f : α → Option (Alternatives β)) : Alternatives α → Option (Alternatives β)
  | .single value => f value
  | .either left right => do
    let left ← left.substitute? f
    let right ← right.substitute? f
    return .either left right

@[simp] theorem map_map (f : α → β) (g : β → γ) (tree : Alternatives α) :
    (tree.map f).map g = tree.map fun value => g (f value) := by
  induction tree with
  | single value => rfl
  | either left right ihleft ihright => simp [map, ihleft, ihright]

@[simp] theorem leaves_map (f : α → β) (tree : Alternatives α) :
    (tree.map f).leaves = tree.leaves.map f := by
  induction tree with
  | single value => rfl
  | either left right ihleft ihright => simp [map, leaves, ihleft, ihright]

/-- A tree over values that were made from others is one over these. -/
theorem exists_map_eq {f : α → β} {tree : Alternatives β} {values : List α}
    (h : tree.leaves = values.map f) : ∃ own : Alternatives α,
      own.leaves = values ∧ own.map f = tree := by
  induction tree generalizing values with
  | single value =>
    obtain ⟨own, rfl, rfl⟩ := List.map_eq_singleton_iff.1 h.symm
    exact ⟨.single own, rfl, rfl⟩
  | either left right ihleft ihright =>
    obtain ⟨first, rest, rfl, hleft, hright⟩ := List.map_eq_append_iff.1 h.symm
    obtain ⟨left, rfl, rfl⟩ := ihleft hleft.symm
    obtain ⟨right, rfl, rfl⟩ := ihright hright.symm
    exact ⟨.either left right, rfl, rfl⟩

theorem map_rightward (f : α → β) (first : Alternatives α) (rest : List (Alternatives α)) :
    (rightward first rest).map f = rightward (first.map f) (rest.map (map f)) := by
  induction rest generalizing first with
  | nil => rfl
  | cons next rest ih => simp [rightward, map, ih]

theorem leaves_rightward (first : Alternatives α) (rest : List (Alternatives α)) :
    (rightward first rest).leaves = first.leaves ++ rest.flatMap leaves := by
  induction rest generalizing first with
  | nil => simp [rightward]
  | cons next rest ih => simp [rightward, leaves, ih]

theorem rightward?_map (f : α → β) (trees : List (Alternatives α)) :
    rightward? (trees.map (map f)) = (rightward? trees).map (map f) := by
  cases trees with
  | nil => rfl
  | cons first rest => simp [rightward?, map_rightward]

theorem exists_rightward? {trees : List (Alternatives α)} (h : trees ≠ []) :
    ∃ tree, rightward? trees = some tree ∧ tree.leaves = trees.flatMap leaves := by
  cases trees with
  | nil => exact absurd rfl h
  | cons first rest => exact ⟨_, rfl, leaves_rightward first rest⟩

/-- Putting alternatives in place of values that are nested to the right nests these to the
right. -/
theorem substitute?_rightward {f : α → Option (Alternatives β)} {value : α}
    {tree : Alternatives β} (hvalue : f value = some tree) {values : List α}
    {trees : List (Alternatives β)}
    (h : List.Forall₂ (fun value tree => f value = some tree) values trees) :
    (rightward (.single value) (values.map .single)).substitute? f =
      some (rightward tree trees) := by
  induction h generalizing value tree with
  | nil => exact hvalue
  | cons hnext _ ih => simp [rightward, substitute?, hvalue, ih hnext]

theorem bind_substitute? {f : α → Option (Alternatives β)} {values : List α}
    {trees : List (Alternatives β)}
    (h : List.Forall₂ (fun value tree => f value = some tree) values trees) :
    (rightward? (values.map .single)).bind (substitute? f) = rightward? trees := by
  cases h with
  | nil => rfl
  | cons hfirst hrest => exact substitute?_rightward hfirst hrest

end Alternatives

/-- Read alternatives with parentheses that nest at most as deep as given. -/
def readWithin : Nat → List String → Option (Alternatives (List String))
  | 0, _ => none
  | depth + 1, list => do
    let parts ← (splitOuter ":<|>" 0 list).mapM fun part =>
      match unwrap? part with
      | some inner => readWithin depth inner
      | none => some (.single part)
    Alternatives.rightward? parts

/-- Read alternatives: parentheses take two lexemes, so they do not nest deeper than there are
lexemes. -/
def readAlternatives? (list : List String) : Option (Alternatives (List String)) :=
  readWithin (list.length + 1) list

structure ReadsTo (depth : Nat) (part : List String) (tree : Alternatives (List String)) :
    Prop where
  phrase : Phrase ":<|>" part
  read : (match unwrap? part with
    | some inner => readWithin depth inner
    | none => some (.single part)) = some tree

section Reading

variable {depth : Nat} {part inner : List String} {tree : Alternatives (List String)}

theorem readsTo_single (h : Phrase ":<|>" part) (hpart : unwrap? part = none) (depth : Nat) :
    ReadsTo depth part (.single part) :=
  ⟨h, by rw [hpart]⟩

theorem readsTo_enclosed (hbalanced : Balanced inner) (h : readWithin depth inner = some tree) :
    ReadsTo depth ("(" :: inner ++ [")"]) tree := by
  refine ⟨hbalanced.phrase (by decide) (by decide), ?_⟩
  rw [unwrap?_enclosed hbalanced]
  exact h

/-- Parts with the mark of alternatives between them are read one by one. -/
theorem readWithin_intercalate {parts : List (List String)}
    {trees : List (Alternatives (List String))} (hne : parts ≠ [])
    (h : List.Forall₂ (ReadsTo depth) parts trees) :
    readWithin (depth + 1) ([":<|>"].intercalate parts) = Alternatives.rightward? trees := by
  have hphrases : ∀ part ∈ parts, Phrase ":<|>" part := by
    intro part hpart
    obtain ⟨tree, -, hread⟩ := Outcomes.exists_of_mem_of_forall₂ h.flip hpart
    exact hread.phrase
  have hparts : (parts.mapM fun part =>
      match unwrap? part with
      | some inner => readWithin depth inner
      | none => some (.single part)) = some trees := by
    clear hphrases hne
    induction h with
    | nil => rfl
    | cons hfirst _ ih => simp [hfirst.read, ih]
  rw [readWithin, splitOuter_intercalate hne hphrases, hparts]
  rfl

example : readAlternatives? ["(", "a", ":<|>", "b", ")", ":<|>", "c", ":<|>", "d"] =
    some (.either (.either (.single ["a"]) (.single ["b"]))
      (.either (.single ["c"]) (.single ["d"]))) := by
  decide

end Reading

end ServantGen.Haskell
