import Mathlib.Data.List.Nodup
import Mathlib.Logic.Relation
import Mathlib.Order.Lattice.Nat
import ServantGen.Proofs.Closure.Inventory

/-!
# Models within reach

A model leads to those it refers to, to those that they refer to, and so on through the models of
the table. The walk over a table takes its queue in layers. What a whole queue adds to the list are
the queued models that were unvisited, and the queue behind it holds their references; so after `n`
layers the unvisited models are those that no `n` steps lead to, and of these the queue holds the
ones that are a single step further. Hence the walk lists exactly the models within reach, each
once and the nearest first, and a model is recursive exactly when it lies on a circle.
-/

namespace ServantGen

namespace ModelTable

open Relation (TransGen)

/-! ## Steps from model to model -/

/-- A model of the table refers to another one of the table, or to itself. -/
def Refers (table : ModelTable) (source target : String) : Prop :=
  ∃ model, table.get? source = some model ∧ target ∈ model.references ∧
    table.contains target = true

/-- So many references in a row, one at least, lead from a model to another. -/
inductive LeadsTo (table : ModelTable) (start : String) : Nat → String → Prop where
  | one {name : String} (h : table.Refers start name) : LeadsTo table start 1 name
  | more {steps : Nat} {middle name : String} (h : LeadsTo table start steps middle)
    (hlast : table.Refers middle name) : LeadsTo table start (steps + 1) name

/-- The least number of references in a row, one at least, that lead from a model to another. -/
noncomputable def distance (table : ModelTable) (start name : String) : Nat :=
  sInf {steps | table.LeadsTo start steps name}

section Steps

variable {table : ModelTable} {start name : String} {steps : Nat}

theorem LeadsTo.pos (h : table.LeadsTo start steps name) : 0 < steps := by
  cases h <;> omega

theorem LeadsTo.mem_names (h : table.LeadsTo start steps name) : name ∈ table.names := by
  cases h with
  | one h | more _ h =>
    obtain ⟨-, -, -, hname⟩ := h
    exact contains_iff.1 hname

theorem exists_leadsTo_iff :
    (∃ steps, table.LeadsTo start steps name) ↔ TransGen table.Refers start name := by
  constructor
  · rintro ⟨steps, h⟩
    induction h with
    | one h => exact .single h
    | more _ hlast ih => exact ih.tail hlast
  · intro h
    induction h with
    | single h => exact ⟨1, .one h⟩
    | tail _ hlast ih =>
      obtain ⟨steps, hsteps⟩ := ih
      exact ⟨steps + 1, hsteps.more hlast⟩

theorem not_leadsTo_of_get?_eq_none (h : table.get? start = none) :
    ¬table.LeadsTo start steps name := by
  intro hleads
  induction hleads with
  | one hrefers =>
    obtain ⟨model, hmodel, -⟩ := hrefers
    simp [h] at hmodel
  | more _ _ ih => exact ih

theorem LeadsTo.distance_le (h : table.LeadsTo start steps name) :
    table.distance start name ≤ steps :=
  Nat.sInf_le h

theorem LeadsTo.distance (h : table.LeadsTo start steps name) :
    table.LeadsTo start (table.distance start name) name :=
  Nat.sInf_mem (s := {steps | table.LeadsTo start steps name}) ⟨steps, h⟩

end Steps

/-! ## The walk in layers -/

/-- The models that are still unvisited when the queued names were visited. -/
def left (unvisited : List Model) (queue : List String) : List Model :=
  unvisited.filter fun model => !queue.contains model.name

/-- The queued models that are unvisited, each at the first place of its name in the queue. -/
def layer : List Model → List String → List Model
  | _, [] => []
  | unvisited, name :: queue =>
    match unvisited.find? (·.name == name) with
    | none => layer unvisited queue
    | some model => model :: layer (left unvisited [name]) queue

section Walk

variable {unvisited : List Model} {name : String} {model : Model} {queue : List String}

theorem mem_left : model ∈ left unvisited queue ↔ model ∈ unvisited ∧ model.name ∉ queue := by
  simp [left]

theorem left_nil (unvisited : List Model) : left unvisited [] = unvisited := by
  simp [left]

theorem left_left (unvisited : List Model) (name : String) (queue : List String) :
    left (left unvisited [name]) queue = left unvisited (name :: queue) := by
  rw [left, left, List.filter_filter]
  refine List.filter_congr fun model _ => ?_
  simp [Bool.and_comm]

theorem left_cons_of_none (h : unvisited.find? (·.name == name) = none) (queue : List String) :
    left unvisited (name :: queue) = left unvisited queue := by
  refine List.filter_congr fun model hmodel => ?_
  have hne : model.name ≠ name := by simpa using List.find?_eq_none.1 h model hmodel
  simp [hne]

theorem layer_cons_of_none (h : unvisited.find? (·.name == name) = none) (queue : List String) :
    layer unvisited (name :: queue) = layer unvisited queue := by
  rw [layer, h]

theorem layer_cons_of_some (h : unvisited.find? (·.name == name) = some model)
    (queue : List String) :
    layer unvisited (name :: queue) = model :: layer (left unvisited [name]) queue := by
  rw [layer, h]

theorem nodup_left (h : (unvisited.map Model.name).Nodup) (queue : List String) :
    ((left unvisited queue).map Model.name).Nodup :=
  h.sublist (List.filter_sublist.map Model.name)

theorem visit_nil (unvisited : List Model) : visit unvisited [] = [] := by
  rw [visit]

theorem visit_cons_of_none (h : unvisited.find? (·.name == name) = none) (queue : List String) :
    visit unvisited (name :: queue) = visit unvisited queue := by
  rw [visit]
  split
  · rfl
  · rename_i hmodel
    simp [h] at hmodel

variable (hnames : (unvisited.map Model.name).Nodup)
include hnames

/-- With one model for each name, the first model of a name is the only one. -/
theorem eraseP_name (name : String) :
    unvisited.eraseP (·.name == name) = left unvisited [name] := by
  induction unvisited with
  | nil => rfl
  | cons first rest ih =>
    obtain ⟨hfirst, hrest⟩ := List.nodup_cons.1 hnames
    by_cases hname : first.name = name
    · have hapart : ∀ model ∈ rest, model.name ≠ name := fun model hmodel heq =>
        hfirst (hname.trans heq.symm ▸ List.mem_map_of_mem hmodel)
      have hall : left rest [name] = rest := by
        rw [left, List.filter_eq_self]
        simpa using hapart
      rw [List.eraseP_cons_of_pos (by simpa using hname), ← hall]
      simp [left, hname]
    · rw [List.eraseP_cons_of_neg (by simpa using hname), ih hrest]
      simp [left, hname]

theorem visit_cons_of_some (h : unvisited.find? (·.name == name) = some model)
    (queue : List String) : visit unvisited (name :: queue) =
      name :: visit (left unvisited [name]) (queue ++ model.references) := by
  rw [visit, ← eraseP_name hnames]
  split
  · rename_i hmodel
    simp [h] at hmodel
  · rename_i other hother
    obtain rfl := Option.some.inj (h.symm.trans hother)
    rfl

/-- A queue is taken before what stands behind it. It adds its layer to the list, and the
references of its layer to the end of the queue. -/
theorem visit_append (queue later : List String) :
    visit unvisited (queue ++ later) = (layer unvisited queue).map Model.name ++
      visit (left unvisited queue) (later ++ (layer unvisited queue).flatMap Model.references) := by
  induction queue generalizing unvisited later with
  | nil => simp [layer, left_nil]
  | cons name queue ih =>
    cases hfind : unvisited.find? (·.name == name) with
    | none =>
      rw [List.cons_append, visit_cons_of_none hfind, ih hnames, layer_cons_of_none hfind,
        left_cons_of_none hfind]
    | some model =>
      have hname : model.name = name := by simpa using List.find?_some hfind
      rw [List.cons_append, visit_cons_of_some hnames hfind, List.append_assoc,
        ih (nodup_left hnames [name]), left_left, layer_cons_of_some hfind]
      simp [hname]

theorem visit_eq (queue : List String) :
    visit unvisited queue = (layer unvisited queue).map Model.name ++
      visit (left unvisited queue) ((layer unvisited queue).flatMap Model.references) := by
  simpa using visit_append hnames queue []

theorem mem_layer : model ∈ layer unvisited queue ↔ model ∈ unvisited ∧ model.name ∈ queue := by
  induction queue generalizing unvisited with
  | nil => simp [layer]
  | cons name queue ih =>
    cases hfind : unvisited.find? (·.name == name) with
    | none =>
      have hne : model ∈ unvisited → model.name ≠ name := fun hmem => by
        simpa using List.find?_eq_none.1 hfind model hmem
      rw [layer_cons_of_none hfind, ih hnames, List.mem_cons]
      grind
    | some found =>
      have hname : found.name = name := by simpa using List.find?_some hfind
      have hfound := List.mem_of_find?_eq_some hfind
      have hsame : model ∈ unvisited → model.name = name → model = found := fun hmem heq =>
        List.inj_on_of_nodup_map hnames hmem hfound (heq.trans hname.symm)
      rw [layer_cons_of_some hfind, List.mem_cons, ih (nodup_left hnames [name]), mem_left,
        List.mem_cons]
      grind

theorem nodup_layer (queue : List String) : ((layer unvisited queue).map Model.name).Nodup := by
  induction queue generalizing unvisited with
  | nil => exact List.nodup_nil
  | cons name queue ih =>
    cases hfind : unvisited.find? (·.name == name) with
    | none => exact layer_cons_of_none hfind queue ▸ ih hnames
    | some found =>
      have hname : found.name = name := by simpa using List.find?_some hfind
      have hrest := nodup_left hnames [name]
      rw [layer_cons_of_some hfind, List.map_cons, List.nodup_cons]
      refine ⟨?_, ih hrest⟩
      rw [List.mem_map]
      rintro ⟨model, hmodel, heq⟩
      have hapart := (mem_left.1 ((mem_layer hrest).1 hmodel).1).2
      exact hapart (List.mem_singleton.2 (heq.trans hname))

end Walk

/-! ## Layers and distances -/

/-- What is unvisited and what is queued behind so many layers: the unvisited models are those that
are not reached by so many references, and the queued ones among them are reached by one more. -/
structure BehindLayers (table : ModelTable) (start : String) (steps : Nat)
    (unvisited : List Model) (queue : List String) : Prop where
  once : (unvisited.map Model.name).Nodup
  rest : ∀ model : Model, model ∈ unvisited ↔
    model ∈ table.models ∧ ∀ fewer ≤ steps, ¬table.LeadsTo start fewer model.name
  queued : ∀ model ∈ unvisited,
    model.name ∈ queue ↔ table.LeadsTo start (steps + 1) model.name

/-- The names of the models within reach among those given, each once and the nearest first. -/
structure ListsReach (table : ModelTable) (start : String) (models : List Model)
    (names : List String) : Prop where
  once : names.Nodup
  reached : ∀ name, name ∈ names ↔
    name ∈ models.map Model.name ∧ TransGen table.Refers start name
  nearest : names.Pairwise fun first second =>
    table.distance start first ≤ table.distance start second

section Layers

variable {table : ModelTable} {start : String} {steps : Nat} {unvisited : List Model}
  {queue : List String}

theorem behindLayers_zero (hnames : table.names.Nodup) {model : Model}
    (h : table.get? start = some model) :
    table.BehindLayers start 0 table.models model.references where
  once := hnames
  rest := by
    intro other
    have hnone : ∀ fewer ≤ 0, ¬table.LeadsTo start fewer other.name := fun fewer hfewer hleads => by
      have := hleads.pos
      omega
    exact ⟨fun hmem => ⟨hmem, hnone⟩, And.left⟩
  queued := by
    intro other hother
    have hcontains : table.contains other.name = true :=
      contains_iff.2 (List.mem_map_of_mem hother)
    constructor
    · exact fun hmem => .one ⟨model, h, hmem, hcontains⟩
    · intro hleads
      cases hleads with
      | one hrefers =>
        obtain ⟨source, hsource, hmem, -⟩ := hrefers
        obtain rfl := Option.some.inj (h.symm.trans hsource)
        exact hmem
      | more hleads _ => exact absurd hleads.pos (by omega)

namespace BehindLayers

variable (h : table.BehindLayers start steps unvisited queue)
include h

/-- The next layer are the models that are a single reference further. -/
theorem mem_layer_iff {model : Model} : model ∈ layer unvisited queue ↔
    model ∈ unvisited ∧ table.LeadsTo start (steps + 1) model.name := by
  rw [mem_layer h.once]
  exact and_congr_right fun hmem => h.queued model hmem

theorem mem_left_iff {model : Model} : model ∈ left unvisited queue ↔
    model ∈ table.models ∧ ∀ fewer ≤ steps + 1, ¬table.LeadsTo start fewer model.name := by
  rw [mem_left]
  constructor
  · rintro ⟨hmem, hqueue⟩
    obtain ⟨hmodel, hrest⟩ := (h.rest model).1 hmem
    refine ⟨hmodel, fun fewer hfewer hleads => ?_⟩
    obtain hlt | rfl := Nat.le_succ_iff.1 hfewer
    · exact hrest fewer hlt hleads
    · exact hqueue ((h.queued model hmem).2 hleads)
  · rintro ⟨hmodel, hrest⟩
    have hmem := (h.rest model).2 ⟨hmodel, fun fewer hfewer => hrest fewer (by omega)⟩
    exact ⟨hmem, fun hqueue => hrest _ (Nat.le_refl _) ((h.queued model hmem).1 hqueue)⟩

/-- A layer is behind when it was visited and its references are queued. -/
theorem next (hnames : table.names.Nodup) : table.BehindLayers start (steps + 1)
    (left unvisited queue) ((layer unvisited queue).flatMap Model.references) where
  once := nodup_left h.once queue
  rest := fun model => h.mem_left_iff
  queued := by
    intro model hmodel
    obtain ⟨hmem, hrest⟩ := h.mem_left_iff.1 hmodel
    have hcontains := contains_iff.2 (List.mem_map_of_mem (f := Model.name) hmem)
    rw [List.mem_flatMap]
    constructor
    · rintro ⟨middle, hmiddle, hreferences⟩
      obtain ⟨hunvisited, hleads⟩ := h.mem_layer_iff.1 hmiddle
      have hget := (get?_eq_some_iff hnames).2 ⟨((h.rest middle).1 hunvisited).1, rfl⟩
      exact hleads.more ⟨middle, hget, hreferences, hcontains⟩
    · intro hleads
      cases hleads with
      | more hleads hrefers =>
        obtain ⟨middle, hget, hreferences, -⟩ := hrefers
        obtain ⟨hmiddle, rfl⟩ := (get?_eq_some_iff hnames).1 hget
        -- A shorter way to the model in the middle would be a shorter way to its reference.
        have hunvisited := (h.rest middle).2 ⟨hmiddle, fun fewer hfewer hshort =>
          hrest (fewer + 1) (by omega) (hshort.more ⟨middle, hget, hreferences, hcontains⟩)⟩
        exact ⟨middle, h.mem_layer_iff.2 ⟨hunvisited, hleads⟩, hreferences⟩

/-- With an empty layer, no model is a single reference further. -/
theorem exists_le_of_succ (hlayer : layer unvisited queue = []) {fewer : Nat} {name : String}
    (hfewer : fewer ≤ steps + 1) (hleads : table.LeadsTo start fewer name) :
    ∃ fewer ≤ steps, table.LeadsTo start fewer name := by
  obtain hle | rfl := Nat.le_succ_iff.1 hfewer
  · exact ⟨fewer, hle, hleads⟩
  · by_contra hnone
    simp only [not_exists, not_and] at hnone
    obtain ⟨model, hmodel, rfl⟩ := List.mem_map.1 hleads.mem_names
    have hmem := h.mem_layer_iff.2 ⟨(h.rest model).2 ⟨hmodel, hnone⟩, hleads⟩
    rw [hlayer] at hmem
    exact List.not_mem_nil hmem

/-- With an empty layer, all that is within reach was reached. -/
theorem exists_le_of_leadsTo (hlayer : layer unvisited queue = []) {further : Nat} {name : String}
    (hleads : table.LeadsTo start further name) :
    ∃ fewer ≤ steps, table.LeadsTo start fewer name := by
  induction hleads with
  | one hrefers => exact h.exists_le_of_succ hlayer (by omega) (.one hrefers)
  | more _ hlast ih =>
    obtain ⟨fewer, hfewer, hleads⟩ := ih
    exact h.exists_le_of_succ hlayer (by omega) (hleads.more hlast)

theorem lt_distance {model : Model} (hmodel : model ∈ unvisited) {further : Nat}
    (hleads : table.LeadsTo start further model.name) :
    steps + 1 ≤ table.distance start model.name := by
  by_contra hlt
  exact ((h.rest model).1 hmodel).2 _ (by omega) hleads.distance

theorem length_left_lt (hlayer : layer unvisited queue ≠ []) :
    (left unvisited queue).length < unvisited.length := by
  obtain ⟨model, hmodel⟩ := List.exists_mem_of_ne_nil _ hlayer
  obtain ⟨hmem, hqueue⟩ := (mem_layer h.once).1 hmodel
  rw [left, List.length_filter_lt_length_iff_exists]
  exact ⟨model, hmem, by simpa using hqueue⟩

end BehindLayers

/-- A layer and what is within reach behind it are all that is within reach. -/
theorem listsReach_append (h : table.BehindLayers start steps unvisited queue) {names : List String}
    (hnames : table.ListsReach start (left unvisited queue) names) :
    table.ListsReach start unvisited ((layer unvisited queue).map Model.name ++ names) where
  once := by
    rw [List.nodup_append]
    refine ⟨nodup_layer h.once queue, hnames.once, ?_⟩
    intro name hlayer other hother
    rintro rfl
    obtain ⟨model, hmodel, rfl⟩ := List.mem_map.1 hlayer
    obtain ⟨late, hlate, heq⟩ := List.mem_map.1 ((hnames.reached _).1 hother).1
    exact (mem_left.1 hlate).2 (heq ▸ ((mem_layer h.once).1 hmodel).2)
  reached := by
    intro name
    rw [List.mem_append, hnames.reached]
    constructor
    · rintro (hmem | ⟨hmem, hreached⟩)
      · obtain ⟨model, hmodel, rfl⟩ := List.mem_map.1 hmem
        obtain ⟨hunvisited, hleads⟩ := h.mem_layer_iff.1 hmodel
        exact ⟨List.mem_map_of_mem hunvisited, exists_leadsTo_iff.1 ⟨_, hleads⟩⟩
      · obtain ⟨model, hmodel, rfl⟩ := List.mem_map.1 hmem
        exact ⟨List.mem_map_of_mem (mem_left.1 hmodel).1, hreached⟩
    · rintro ⟨hmem, hreached⟩
      obtain ⟨model, hmodel, rfl⟩ := List.mem_map.1 hmem
      by_cases hqueue : model.name ∈ queue
      · exact .inl (List.mem_map_of_mem ((mem_layer h.once).2 ⟨hmodel, hqueue⟩))
      · exact .inr ⟨List.mem_map_of_mem (mem_left.2 ⟨hmodel, hqueue⟩), hreached⟩
  nearest := by
    have hlayer : ∀ name ∈ (layer unvisited queue).map Model.name,
        table.distance start name ≤ steps + 1 := by
      rw [List.forall_mem_map]
      exact fun model hmodel => (h.mem_layer_iff.1 hmodel).2.distance_le
    have hrest : ∀ model ∈ unvisited, ∀ further, table.LeadsTo start further model.name →
        steps + 1 ≤ table.distance start model.name :=
      fun model hmodel further hleads => h.lt_distance hmodel hleads
    rw [List.pairwise_append]
    refine ⟨?_, hnames.nearest, ?_⟩
    · refine List.pairwise_of_forall_mem_list fun first hfirst second hsecond => ?_
      obtain ⟨model, hmodel, rfl⟩ := List.mem_map.1 hsecond
      obtain ⟨hunvisited, hleads⟩ := h.mem_layer_iff.1 hmodel
      exact (hlayer first hfirst).trans (hrest model hunvisited _ hleads)
    · intro first hfirst second hsecond
      obtain ⟨hmem, hreached⟩ := (hnames.reached second).1 hsecond
      obtain ⟨model, hmodel, rfl⟩ := List.mem_map.1 hmem
      obtain ⟨further, hleads⟩ := exists_leadsTo_iff.2 hreached
      exact (hlayer first hfirst).trans (hrest model (mem_left.1 hmodel).1 further hleads)

/-- Nothing is within reach any more. -/
theorem listsReach_nil (h : ∀ model ∈ unvisited, ∀ steps, ¬table.LeadsTo start steps model.name) :
    table.ListsReach start unvisited [] where
  once := List.nodup_nil
  reached := by
    intro name
    refine ⟨fun hmem => absurd hmem List.not_mem_nil, ?_⟩
    rintro ⟨hmem, hreached⟩
    obtain ⟨model, hmodel, rfl⟩ := List.mem_map.1 hmem
    obtain ⟨steps, hleads⟩ := exists_leadsTo_iff.2 hreached
    exact absurd hleads (h model hmodel steps)
  nearest := List.Pairwise.nil

/-- Behind any number of layers the walk goes on with exactly what is within reach. -/
theorem BehindLayers.listsReach (hnames : table.names.Nodup)
    (h : table.BehindLayers start steps unvisited queue) :
    table.ListsReach start unvisited (visit unvisited queue) := by
  induction hlength : unvisited.length using Nat.strongRecOn
    generalizing steps unvisited queue with
  | ind length ih =>
    rw [visit_eq h.once]
    by_cases hlayer : layer unvisited queue = []
    · rw [hlayer, List.flatMap_nil, visit_nil]
      refine listsReach_nil fun model hmodel further hleads => ?_
      obtain ⟨fewer, hfewer, hleads⟩ := h.exists_le_of_leadsTo hlayer hleads
      exact ((h.rest model).1 hmodel).2 fewer hfewer hleads
    · have hless : (left unvisited queue).length < length := hlength ▸ h.length_left_lt hlayer
      exact listsReach_append h (ih _ hless (h.next hnames) rfl)

theorem listsReach_reachable (hnames : table.names.Nodup) (start : String) :
    table.ListsReach start table.models (table.reachable start) := by
  unfold reachable
  split
  · rename_i hget
    exact listsReach_nil fun model _ steps => not_leadsTo_of_get?_eq_none hget
  · rename_i model hget
    exact (behindLayers_zero hnames hget).listsReach hnames

theorem mem_reachable_iff (hnames : table.names.Nodup) {name : String} :
    name ∈ table.reachable start ↔ TransGen table.Refers start name := by
  rw [(listsReach_reachable hnames start).reached]
  refine and_iff_right_of_imp fun hreached => ?_
  obtain ⟨steps, hleads⟩ := exists_leadsTo_iff.2 hreached
  exact hleads.mem_names

end Layers

/-- Whatever the models of a table refer to, one model for each name as insertion keeps them, the
walk from any start lists exactly the models within reach, each once and the nearest first. The
start is among them exactly when it lies on a circle of references, and a model is recursive exactly
when it lies on one. -/
theorem reachable_lists_reach (table : ModelTable) (hnames : table.names.Nodup) (start : String) :
    table.ListsReach start table.models (table.reachable start) ∧
      (start ∈ table.reachable start ↔ TransGen table.Refers start start) ∧
      (table.isRecursive start = true ↔ TransGen table.Refers start start) := by
  refine ⟨listsReach_reachable hnames start, mem_reachable_iff hnames, ?_⟩
  rw [isRecursive, List.contains_iff_mem]
  exact mem_reachable_iff hnames

/-- A circle of three models behind a name that is referred to twice, a model that refers to itself,
and a name without a model. -/
theorem reachable_lists_reach_circle :
    let table : ModelTable := .ofModels [
      ⟨"A", "A", none, .union ["B", "B", "C", "Missing"], none⟩,
      ⟨"B", "B", none, .alias (.array (.optional (.named "D"))), none⟩,
      ⟨"C", "C", none, .record [⟨"c", "c", .map (.named "C"), true, none⟩], none⟩,
      ⟨"D", "D", none, .record [⟨"a", "a", .named "A", true, none⟩,
        ⟨"b", "b", .named "B", false, none⟩], none⟩,
      ⟨"E", "E", none, .enum ["a"], none⟩]
    table.names.Nodup ∧ table.reachable "A" = ["B", "C", "D", "A"] ∧
      table.ListsReach "A" table.models ["B", "C", "D", "A"] ∧
      TransGen table.Refers "A" "A" ∧ ¬TransGen table.Refers "E" "E" := by
  intro table
  have hnames : table.names.Nodup := nodup_names_ofModels _
  have hwalk : table.reachable "A" = ["B", "C", "D", "A"] := by cbv
  obtain ⟨hlists, hcircle, -⟩ := reachable_lists_reach table hnames "A"
  obtain ⟨-, -, hrecursive⟩ := reachable_lists_reach table hnames "E"
  rw [hwalk] at hlists hcircle
  have hnone : table.isRecursive "E" = false := by cbv
  exact ⟨hnames, hwalk, hlists, hcircle.1 (by decide), by simpa [hnone] using hrecursive⟩

end ModelTable

end ServantGen
