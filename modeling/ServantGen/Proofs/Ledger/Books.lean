import Mathlib.Data.List.Forall2
import ServantGen.Proofs.Ledger.Namings
import ServantGen.Proofs.Lowering.Questions

/-!
# Keeping the books of a run

While a document is lowered, identifiers are claimed before the type or the model that carries
them has its place. The books of a stretch of a run say what was claimed since its start, in
order, and which models were added to the table; the claimed identifiers are those of the added
models and those still owed, that is, carried by what was answered but not yet put anywhere.
Every renamed identifier was reported as it was claimed, and nothing else was reported.

A placeholder is not booked. Its stretch starts anew behind it, and when the model takes the
place the two stretches are joined.
-/

namespace ServantGen

namespace ModelTable

theorem insertInto_of_notMem {models : List Model} {model : Model}
    (h : model.name ∉ models.map Model.name) : insertInto model models = models ++ [model] := by
  induction models with
  | nil => rfl
  | cons other rest ih =>
    obtain ⟨hne, hrest⟩ := not_or.1 (mt List.mem_cons.2 h)
    rw [insertInto, if_neg (Ne.symm hne), ih hrest, List.cons_append]

theorem insertInto_append_cons {front back : List Model} {old model : Model}
    (hfront : model.name ∉ front.map Model.name) (hname : old.name = model.name) :
    insertInto model (front ++ old :: back) = front ++ model :: back := by
  induction front with
  | nil => rw [List.nil_append, insertInto, if_pos hname, List.nil_append]
  | cons other rest ih =>
    obtain ⟨hne, hrest⟩ := not_or.1 (mt List.mem_cons.2 hfront)
    rw [List.cons_append, insertInto, if_neg (Ne.symm hne), ih hrest, List.cons_append]

/-- A name that has a place keeps it. -/
theorem names_insert_of_mem {table : ModelTable} {model : Model} (h : model.name ∈ table.names) :
    (table.insert model).names = table.names := by
  obtain ⟨models⟩ := table
  simp only [insert, names] at h ⊢
  induction models with
  | nil => simp at h
  | cons other rest ih =>
    unfold insertInto
    split
    · rename_i heq
      rw [List.map_cons, List.map_cons, heq]
    · rename_i hne
      obtain heq | h := List.mem_cons.1 h
      · exact absurd heq.symm hne
      · rw [List.map_cons, List.map_cons, ih h]

end ModelTable

/-! ## Claims -/

namespace NameScope

structure AreNew (scope : NameScope) (names : List String) : Prop where
  once : names.Nodup
  new : ∀ name ∈ names, name ∉ scope.owners.keys

theorem areNew_nil (scope : NameScope) : scope.AreNew [] :=
  ⟨List.nodup_nil, by simp⟩

/-- A new name, and names that are new after it was claimed. -/
theorem AreNew.cons_claimFresh {scope : NameScope} {reserved names : List String}
    {raw preferred : String} (h : (scope.claimFresh reserved raw preferred).2.AreNew names) :
    scope.AreNew ((scope.claimFresh reserved raw preferred).1.name :: names) := by
  have hnew := h.new
  rw [keys_claimFresh] at hnew
  refine ⟨List.nodup_cons.2 ⟨?_, h.once⟩, List.forall_mem_cons.2 ⟨?_, ?_⟩⟩
  · exact fun hmem => hnew _ hmem List.mem_cons_self
  · exact name_claimFresh_notMem _ _ _ _
  · exact fun name hmem hheld => hnew name hmem (List.mem_cons_of_mem _ hheld)

/-- The same for a name of the target. -/
theorem AreNew.cons {scope : NameScope} {target : Target} {raw : String} {role : Role}
    {names : List String} (h : (target.freshIn scope raw role).2.AreNew names) :
    scope.AreNew ((target.freshIn scope raw role).1.name :: names) :=
  h.cons_claimFresh

end NameScope

namespace Lowering

def Notice.tellsRenaming (notice : Notice) : Bool :=
  notice.remark.kind == .identifierCollision

/-- A notice that an identifier is not the one its raw name asks for, but has a number. -/
def Reports (target : Target) (naming : Naming) (notice : Notice) : Prop :=
  (∃ existing, notice.remark =
    .renamed ⟨naming.raw, target.identifier naming.role naming.raw, existing, naming.name⟩) ∧
  ∃ number, naming.name =
    NameScope.numbered (target.identifier naming.role naming.raw) number

theorem filter_renamedNotices (identifier : Identifier) (location : String) :
    (renamedNotices identifier location).filter Notice.tellsRenaming =
      renamedNotices identifier location := by
  obtain ⟨name, collision⟩ := identifier
  cases collision <;> rfl

/-- A new identifier is reported exactly when it is renamed. -/
theorem reports_freshIn (target : Target) (scope : NameScope) (raw : String) (role : Role)
    (location : String) :
    List.Forall₂ (Reports target)
      ([⟨role, raw, (target.freshIn scope raw role).1.name⟩].filter (Naming.isRenamed target))
      ((renamedNotices (target.freshIn scope raw role).1 location).filter
        Notice.tellsRenaming) := by
  rw [filter_renamedNotices]
  obtain hkept | ⟨existing, name, hne, hnumber, hrenamed⟩ :=
    scope.claimFresh_cases target.reserved raw (target.identifier role raw)
  · rw [Target.freshIn, hkept]
    simp [Naming.isRenamed, renamedNotices]
  · rw [Target.freshIn, hrenamed]
    simp [Naming.isRenamed, renamedNotices, hne, Reports, hnumber]

/-! ## Moments of a run -/

/-- One state comes before another: the names of the schemas are the same, and there are perhaps
more models and more notices. -/
structure Earlier (before after : State) : Prop where
  schemaNames : after.schemaNames = before.schemaNames
  models : before.models.names <+: after.models.names
  notices : before.notices <+: after.notices

namespace Earlier

theorem refl (state : State) : Earlier state state :=
  ⟨rfl, List.prefix_rfl, List.prefix_rfl⟩

theorem trans {first second third : State} (h : Earlier first second)
    (h' : Earlier second third) : Earlier first third :=
  ⟨h'.schemaNames.trans h.schemaNames, h.models.trans h'.models, h.notices.trans h'.notices⟩

/-- A model with a new name is put at the end. -/
theorem append {state : State} {model : Model} (h : model.name ∉ state.models.names) :
    Earlier state { state with models := state.models.insert model } := by
  refine ⟨rfl, ?_, List.prefix_rfl⟩
  change _ <+: (ModelTable.insertInto model state.models.models).map Model.name
  rw [ModelTable.insertInto_of_notMem h, List.map_append]
  exact List.prefix_append _ _

/-- A model in the place of another one changes no name. -/
theorem insert {state : State} {model : Model} (h : model.name ∈ state.models.names) :
    Earlier state { state with models := state.models.insert model } :=
  ⟨rfl, (ModelTable.names_insert_of_mem h).symm ▸ List.prefix_rfl, List.prefix_rfl⟩

end Earlier

/-- A question made a model by hoisting the schema it is about: the name was new when it was asked,
and the model is what its own schema gives under that name behind the placeholder. -/
structure HoistedAt (setting : Setting) (question : Question) (after : State) (model : Model) :
    Prop where
  object : IsHoisted question.site
  rawName : model.rawName = question.hint
  new : model.name ∉ question.before.models.names
  hoist : (hoist setting (typeOf setting question.depth) question.site question.hint
    question.location).run question.before = some (.named model.name, after)
  made : ∃ claimed placed filled,
    (freshType setting question.hint question.location).run question.before =
      some (model.name, claimed) ∧
    placed = { claimed with
      models := claimed.models.insert (placeholder model.name question.hint) } ∧
    (modelOf setting (typeOf setting question.depth) model.name question.hint question.site
      question.location).run placed = some (model, filled) ∧
    after = { filled with models := filled.models.insert model } ∧
    Earlier placed filled ∧ Earlier filled after

/-- A schema that gets a model: a named one, or one that was asked about. -/
def GetsModel (setting : Setting) (asked : Question → Prop) (schema : Site) : Prop :=
  (∃ raw, (raw, schema) ∈ setting.document.schemas) ∨
    ∃ question, asked question ∧ question.site = schema

/-- A site is one of the alternatives of a schema that gets a model, by its position from one. -/
def IsAlternative (setting : Setting) (asked : Question → Prop) (position : Nat) (site : Site) :
    Prop :=
  ∃ schema alternatives, GetsModel setting asked schema ∧
    alternatives? schema = some alternatives ∧ ∃ index, position = index + 1 ∧
      alternatives[index]? = some site

/-- A model was made as the alias for an alternative of a union, about which a question was asked
whose answer is no model. -/
structure AliasedAt (setting : Setting) (asked : Question → Prop) (question : Question)
    (after : State) (model : Model) : Prop where
  rawName : model.rawName = question.hint
  new : model.name ∉ question.before.models.names
  variant : ∃ union position, question.hint = union ++ " variant " ++ Text.decimal position ∧
    IsAlternative setting asked position question.site ∧
    (variantOf setting (typeOf setting (question.depth + 1)) union question.location position
      question.site).run question.before = some (⟨model.name, none⟩, after)
  made : ∃ type found, (typeOf setting (question.depth + 1) question.site question.hint
      question.location).run question.before = some (type, found) ∧
    (∀ name, type ≠ .named name) ∧ Earlier question.before found ∧ Earlier found after ∧
    model = ⟨model.name, question.hint, none, .alias type, none⟩

/-- A model that one of the questions made on the way to a state: hoisted, or the alias of an
alternative. -/
def Made (setting : Setting) (asked : Question → Prop) (state : State) (model : Model) : Prop :=
  ∃ question after, asked question ∧ Earlier after state ∧
    (HoistedAt setting question after model ∨ AliasedAt setting asked question after model)

theorem Made.later {setting : Setting} {asked : Question → Prop} {state after : State}
    {model : Model} (h : Made setting asked state model) (hlater : Earlier state after) :
    Made setting asked after model := by
  obtain ⟨question, made, hasked, hearlier, hcases⟩ := h
  exact ⟨question, made, hasked, hearlier.trans hlater, hcases⟩

/-! ## Books -/

/-- The names that are held for the whole run in a role. -/
def State.held (state : State) : Role → List String
  | .type => state.names.types.owners.keys
  | .function => state.names.functions.owners.keys
  | .field | .parameter | .variant | .module => []

theorem State.held_of_names {state after : State} (h : after.names = state.names) (role : Role) :
    after.held role = state.held role := by
  cases role <;> simp only [State.held, h]

/-- The roles whose names are held for the whole run. -/
def Lasting (role : Role) : Prop :=
  role = .type ∨ role = .function

/-- No name is held twice, and the models hold their names. -/
structure Sound (state : State) : Prop where
  once : ∀ role, (state.held role).Nodup
  models : state.models.names ⊆ state.held .type

namespace Sound

theorem of_eq {state after : State} (h : Sound state) (hmodels : after.models = state.models)
    (hnames : after.names = state.names) : Sound after where
  once := fun role => State.held_of_names hnames role ▸ h.once role
  models := by
    rw [hmodels, State.held_of_names hnames]
    exact h.models

/-- A claim of a name that is not held. -/
theorem claim {state after : State} {naming : Naming} (h : Sound state)
    (hmodels : after.models = state.models)
    (hheld : ∀ role, Lasting role →
      after.held role = Naming.namesIn role [naming] ++ state.held role)
    (hnew : naming.name ∉ state.held naming.role) : Sound after where
  once := by
    have hlasting : ∀ role, Lasting role → (after.held role).Nodup := by
      intro role hrole
      rw [hheld role hrole, Naming.namesIn_cons]
      split
      · rename_i heq
        exact List.nodup_cons.2 ⟨heq ▸ hnew, h.once role⟩
      · exact h.once role
    intro role
    cases role with
    | type => exact hlasting _ (.inl rfl)
    | function => exact hlasting _ (.inr rfl)
    | _ => exact List.nodup_nil
  models := by
    rw [hmodels, hheld .type (.inl rfl)]
    exact fun name hname => List.mem_append_right _ (h.models hname)

/-- A model that holds its name. -/
theorem insert {state : State} {model : Model} (h : Sound state)
    (hheld : model.name ∈ state.held .type) :
    Sound { state with models := state.models.insert model } where
  once := h.once
  models := by
    intro name hname
    obtain rfl | hname := ModelTable.mem_names_insert.1 hname
    · exact hheld
    · exact h.models hname

end Sound

/-- What was claimed between two states, in order: every claim of a lasting name is held, and
every renamed identifier is reported. -/
structure Claims (setting : Setting) (entry state : State) (claimed : List Naming) : Prop where
  held : ∀ role, Lasting role →
    state.held role = (Naming.namesIn role claimed).reverse ++ entry.held role
  notices : ∃ new, state.notices = entry.notices ++ new ∧
    List.Forall₂ (Reports setting.target) (claimed.filter (Naming.isRenamed setting.target))
      (new.filter Notice.tellsRenaming)

/-- What was claimed and added between two states. -/
structure Books (setting : Setting) (asked : Question → Prop) (entry state : State)
    (claimed : List Naming) (added : List Model) : Prop
    extends Claims setting entry state claimed where
  schemaNames : state.schemaNames = entry.schemaNames
  table : state.models.models = entry.models.models ++ added
  made : ∀ model ∈ added, Made setting asked state model

/-- The identifiers of models that were made on the way. -/
def addedNamings (models : List Model) : List Naming :=
  models.flatMap fun model => model.namings model.rawName

/-- The books since `entry` are balanced up to the identifiers that are owed. -/
def Balanced (setting : Setting) (asked : Question → Prop) (entry : State) (owed : List Naming)
    (state : State) : Prop :=
  Sound state ∧ ∃ claimed added, Books setting asked entry state claimed added ∧
    claimed.Perm (addedNamings added ++ owed)

variable {setting : Setting} {asked : Question → Prop} {entry state after : State}

namespace Claims

variable {claimed : List Naming}

/-- Two stretches in a row. -/
theorem trans {middle : State} {claimed' : List Naming}
    (h : Claims setting entry middle claimed) (h' : Claims setting middle state claimed') :
    Claims setting entry state (claimed ++ claimed') where
  held := by
    intro role hrole
    rw [h'.held role hrole, h.held role hrole, Naming.namesIn_append, List.reverse_append,
      List.append_assoc]
  notices := by
    obtain ⟨new, hnew, hreports⟩ := h.notices
    obtain ⟨new', hnew', hreports'⟩ := h'.notices
    refine ⟨new ++ new', by rw [hnew', hnew, List.append_assoc], ?_⟩
    rw [List.filter_append, List.filter_append]
    exact List.rel_append hreports hreports'

/-- One claim. -/
theorem single {naming : Naming} {new : List Notice}
    (hheld : ∀ role, Lasting role →
      after.held role = Naming.namesIn role [naming] ++ state.held role)
    (hnotices : after.notices = state.notices ++ new)
    (hreports : List.Forall₂ (Reports setting.target)
      ([naming].filter (Naming.isRenamed setting.target)) (new.filter Notice.tellsRenaming)) :
    Claims setting state after [naming] where
  held := by
    intro role hrole
    rw [hheld role hrole, Naming.namesIn_cons]
    split <;> rfl
  notices := ⟨new, hnotices, hreports⟩

end Claims

namespace Books

variable {claimed : List Naming} {added : List Model}

theorem refl (setting : Setting) (asked : Question → Prop) (state : State) :
    Books setting asked state state [] [] where
  schemaNames := rfl
  table := (List.append_nil _).symm
  held := fun _ _ => rfl
  notices := ⟨[], (List.append_nil _).symm, .nil⟩
  made := by simp

theorem earlier (h : Books setting asked entry state claimed added) : Earlier entry state where
  schemaNames := h.schemaNames
  models := by
    rw [ModelTable.names, ModelTable.names, h.table, List.map_append]
    exact List.prefix_append _ _
  notices := by
    obtain ⟨new, hnew, -⟩ := h.notices
    exact hnew ▸ List.prefix_append _ _

/-- Two stretches in a row. -/
theorem trans {middle : State} {claimed' : List Naming} {added' : List Model}
    (h : Books setting asked entry middle claimed added)
    (h' : Books setting asked middle state claimed' added') :
    Books setting asked entry state (claimed ++ claimed') (added ++ added') where
  toClaims := h.toClaims.trans h'.toClaims
  schemaNames := h'.schemaNames.trans h.schemaNames
  table := by rw [h'.table, h.table, List.append_assoc]
  made := by
    intro model hmodel
    obtain hmodel | hmodel := List.mem_append.1 hmodel
    · exact (h.made model hmodel).later h'.earlier
    · exact h'.made model hmodel

/-- A stretch without claims, whose notices tell of other things. -/
theorem quiet {new : List Notice} (hmodels : after.models = state.models)
    (hschemas : after.schemaNames = state.schemaNames) (hnames : after.names = state.names)
    (hnotices : after.notices = state.notices ++ new)
    (hnew : new.filter Notice.tellsRenaming = []) : Books setting asked state after [] [] where
  schemaNames := hschemas
  table := by rw [hmodels, List.append_nil]
  held := fun role _ => State.held_of_names hnames role
  notices := ⟨new, hnotices, hnew ▸ .nil⟩
  made := by simp

/-- A claim. -/
theorem claim {naming : Naming} {new : List Notice} (hmodels : after.models = state.models)
    (hschemas : after.schemaNames = state.schemaNames)
    (hheld : ∀ role, Lasting role →
      after.held role = Naming.namesIn role [naming] ++ state.held role)
    (hnotices : after.notices = state.notices ++ new)
    (hreports : List.Forall₂ (Reports setting.target)
      ([naming].filter (Naming.isRenamed setting.target)) (new.filter Notice.tellsRenaming)) :
    Books setting asked state after [naming] [] where
  toClaims := .single hheld hnotices hreports
  schemaNames := hschemas
  table := by rw [hmodels, List.append_nil]
  made := by simp

/-- A model with a new name is added. -/
theorem place {model : Model} (hnew : model.name ∉ state.models.names)
    (hmade : Made setting asked { state with models := state.models.insert model } model) :
    Books setting asked state { state with models := state.models.insert model } [] [model] where
  schemaNames := rfl
  table := ModelTable.insertInto_of_notMem hnew
  held := fun _ _ => State.held_of_names rfl _
  notices := ⟨[], (List.append_nil _).symm, .nil⟩
  made := fun _ hmem => List.mem_singleton.1 hmem ▸ hmade

/-- A model takes the place that was left for it at the start of a stretch. -/
theorem fill {old model : Model} (hnew : model.name ∉ state.models.names)
    (hold : old.name = model.name)
    (h : Books setting asked { state with models := state.models.insert old } after claimed added)
    (hmade : Made setting asked { after with models := after.models.insert model } model) :
    Books setting asked state { after with models := after.models.insert model } claimed
      (model :: added) := by
  have htable : after.models.models = state.models.models ++ old :: added := by
    rw [h.table]
    change ModelTable.insertInto old state.models.models ++ added = _
    rw [ModelTable.insertInto_of_notMem (hold ▸ hnew), List.append_assoc,
      List.singleton_append]
  have hplace : model.name ∈ after.models.names := by
    rw [ModelTable.names, htable]
    simp [hold]
  refine ⟨⟨h.held, h.notices⟩, h.schemaNames, ?_, ?_⟩
  · change ModelTable.insertInto model after.models.models = _
    rw [htable, ModelTable.insertInto_append_cons hnew hold]
  · refine List.forall_mem_cons.2 ⟨hmade, ?_⟩
    exact fun other hother => (h.made other hother).later (Earlier.insert hplace)

end Books

namespace Balanced

variable {owed due : List Naming}

theorem start (h : Sound state) : Balanced setting asked state [] state :=
  ⟨h, [], [], Books.refl setting asked state, .nil⟩

/-- A stretch is booked behind another one. -/
theorem step {claimed : List Naming} {added : List Model}
    (h : Balanced setting asked entry owed state)
    (hbooks : Books setting asked state after claimed added) (hsound : Sound after)
    (hperm : (owed ++ claimed).Perm (addedNamings added ++ due)) :
    Balanced setting asked entry due after := by
  obtain ⟨-, earlier, before, hbefore, hbalance⟩ := h
  refine ⟨hsound, earlier ++ claimed, before ++ added, hbefore.trans hbooks, ?_⟩
  have hclaimed : (earlier ++ claimed).Perm (addedNamings before ++ (owed ++ claimed)) := by
    rw [← List.append_assoc]
    exact hbalance.append_right claimed
  have hadded : addedNamings (before ++ added) = addedNamings before ++ addedNamings added :=
    List.flatMap_append
  rw [hadded, List.append_assoc]
  exact hclaimed.trans (hperm.append_left _)

theorem congr (h : Balanced setting asked entry owed state) (hperm : owed.Perm due) :
    Balanced setting asked entry due state := by
  refine h.step (Books.refl setting asked state) h.1 ?_
  rwa [List.append_nil]

end Balanced

/-! ## Computations that keep the books -/

variable {α β : Type}

/-- A computation that starts with identifiers owed leaves the identifiers owed that go with its
result. -/
def Owes (setting : Setting) (asked : Question → Prop) (owed : List Naming) (m : SchemaM α)
    (due : α → List Naming) : Prop :=
  ∀ entry, Contract True (Balanced setting asked entry owed) m fun value =>
    Balanced setting asked entry (due value)

/-- The same for a computation that starts in this state. -/
def OwesFrom (setting : Setting) (asked : Question → Prop) (state : State) (owed : List Naming)
    (m : SchemaM α) (due : α → List Naming) : Prop :=
  ∀ entry, Balanced setting asked entry owed state →
    Contract True (· = state) m fun value => Balanced setting asked entry (due value)

namespace Owes

variable {owed : List Naming} {m : SchemaM α} {due : α → List Naming}

theorem pure {value : α} (h : owed.Perm (due value)) : Owes setting asked owed (pure value) due :=
  fun _ => Contract.pure fun _ hstate => hstate.congr h

/-- The order of what is owed does not matter. -/
theorem congr {owed' : List Naming} (h : Owes setting asked owed m due) (hperm : owed'.Perm owed) :
    Owes setting asked owed' m due :=
  fun entry => (h entry).mono_pre fun _ hstate => hstate.congr hperm

theorem bind {next : α → SchemaM β} {last : β → List Naming} (first : Owes setting asked owed m due)
    (second : ∀ value, Owes setting asked (due value) (next value) last) :
    Owes setting asked owed (m >>= next) last :=
  fun entry => (first entry).bind fun value => second value entry

theorem get_bind {next : State → SchemaM β} {last : β → List Naming}
    (h : ∀ state, Owes setting asked owed (next state) last) :
    Owes setting asked owed (get >>= next) last :=
  fun entry => Contract.get_bind fun state hstate =>
    (h state entry).mono_pre fun _ heq => heq ▸ hstate

theorem start (h : Owes setting asked owed m due) (state : State) :
    OwesFrom setting asked state owed m due :=
  fun entry hstate => (h entry).mono_pre fun _ heq => heq ▸ hstate

/-- A stretch that claims nothing leaves owed what was owed. -/
theorem quiet {due : List Naming}
    (h : ∀ state, Sound state → ∃ value after, m.run state = some (value, after) ∧
      Sound after ∧ Books setting asked state after [] []) (hperm : owed.Perm due) :
    Owes setting asked owed m fun _ => due := by
  intro entry state hstate
  obtain ⟨value, after, hrun, hsound, hbooks⟩ := h state hstate.1
  rw [hrun]
  exact hstate.step hbooks hsound (by simpa [addedNamings] using hperm)

end Owes

theorem OwesFrom.bind {owed : List Naming} {m : SchemaM α} {due : α → List Naming}
    {next : α → SchemaM β} {last : β → List Naming}
    (first : OwesFrom setting asked state owed m due)
    (second : ∀ value, Owes setting asked (due value) (next value) last) :
    OwesFrom setting asked state owed (m >>= next) last :=
  fun entry hstate => (first entry hstate).bind fun value => second value entry

/-- A remark on anything but a name. -/
theorem remark_owes {owed : List Naming} {subject : Remark} (location : String)
    (h : subject.kind ≠ .identifierCollision) :
    Owes setting asked owed (remark subject location) fun _ => owed := by
  refine Owes.quiet ?_ (List.Perm.refl owed)
  intro state hsound
  refine ⟨⟨⟩, _, rfl, hsound.of_eq rfl rfl, Books.quiet rfl rfl rfl rfl ?_⟩
  simp [Notice.tellsRenaming, h]

/-- A remark beside a type that holds no enumeration. -/
theorem remarked_owes {owed : List Naming} {subject : Remark} {type : DataType} {hint : String}
    (location : String) (h : subject.kind ≠ .identifierCollision) (htype : type.namings hint = []) :
    Owes setting asked owed (do remark subject location; return type) fun type =>
      owed ++ type.namings hint := by
  refine (remark_owes location h).bind fun _ => Owes.pure ?_
  rw [htype, List.append_nil]

/-- How many references are being followed is not booked. -/
theorem inlineDepth_owes {owed : List Naming} (change : Nat → Nat) :
    Owes setting asked owed
      (modify fun state => { state with inlineDepth := change state.inlineDepth } : SchemaM PUnit)
      fun _ => owed := by
  refine Owes.quiet ?_ (List.Perm.refl owed)
  intro state hsound
  exact ⟨⟨⟩, _, rfl, hsound.of_eq rfl rfl, Books.quiet rfl rfl rfl (List.append_nil _).symm rfl⟩

/-- A claim adds an identifier to what is owed. -/
theorem Balanced.claim {naming : Naming} {owed : List Naming}
    (h : Balanced setting asked entry owed state) (hsound : Sound after)
    (hbooks : Books setting asked state after [naming] []) :
    Balanced setting asked entry (owed ++ [naming]) after :=
  h.step hbooks hsound (List.Perm.refl _)

/-- The name of a field or a parameter is claimed in a scope of its own. -/
theorem noted_owes {owed : List Naming} {role : Role} (hrole : ¬ Lasting role) (scope : NameScope)
    (raw location : String) :
    Owes setting asked owed (noted (setting.target.freshIn scope raw role).1 location) fun name =>
      owed ++ [⟨role, raw, name⟩] := by
  intro entry state hstate
  rw [noted_run]
  refine hstate.claim (hstate.1.of_eq rfl rfl) (Books.claim rfl rfl ?_ rfl ?_)
  · intro other hother
    have hne : role ≠ other := fun heq => hrole (heq ▸ hother)
    rw [Naming.namesIn_cons, if_neg hne]
    exact State.held_of_names rfl other
  · exact reports_freshIn setting.target scope raw role location

/-- A type name was claimed for a hint: it is new and held, and no model has it yet. -/
structure ClaimedType (setting : Setting) (asked : Question → Prop) (hint : String)
    (state after : State) (name : String) : Prop where
  books : Books setting asked state after [⟨.type, hint, name⟩] []
  sound : Sound after
  models : after.models = state.models
  types : after.names.types = state.names.types.record hint name
  new : name ∉ after.models.names
  held : name ∈ after.held .type

theorem freshType_claims (setting : Setting) (asked : Question → Prop) (hint location : String)
    (hsound : Sound state) :
    ∃ name after, (freshType setting hint location).run state = some (name, after) ∧
      ClaimedType setting asked hint state after name := by
  let types := state.names.types
  let claim := setting.target.freshIn types hint .type
  have hnew : claim.1.name ∉ types.owners.keys := types.name_claimFresh_notMem _ _ _
  have hkeys : claim.2.owners.keys = claim.1.name :: types.owners.keys :=
    types.keys_claimFresh _ _ _
  let after : State := { state with
    names := { state.names with types := claim.2 }
    notices := state.notices ++ renamedNotices claim.1 location }
  have hheld : ∀ role, Lasting role →
      after.held role = Naming.namesIn role [⟨.type, hint, claim.1.name⟩] ++ state.held role := by
    rintro role (rfl | rfl)
    · exact hkeys
    · rfl
  refine ⟨claim.1.name, after, claimed_run _ location state, ?_⟩
  exact {
    books := Books.claim rfl rfl hheld rfl (reports_freshIn _ types hint .type location)
    sound := hsound.claim rfl hheld hnew
    models := rfl
    types := types.claimFresh_snd _ _ _
    new := fun hmem => hnew (hsound.models hmem)
    held := hheld .type (.inl rfl) ▸ List.mem_cons_self }

theorem freshType_owes {owed : List Naming} (hint location : String) :
    Owes setting asked owed (freshType setting hint location) fun name =>
      owed ++ [⟨.type, hint, name⟩] := by
  intro entry state hstate
  obtain ⟨name, after, hrun, hclaim⟩ := freshType_claims setting asked hint location hstate.1
  rw [hrun]
  exact hstate.claim hclaim.sound hclaim.books

theorem freshFunction_owes {owed : List Naming} (raw location : String) :
    Owes setting asked owed (freshFunction setting raw location) fun name =>
      owed ++ [⟨.function, raw, name⟩] := by
  intro entry state hstate
  rw [freshFunction, claimed_run]
  let functions := state.names.functions
  let claim := setting.target.freshIn functions raw .function
  have hheld : ∀ role, Lasting role → State.held { state with
        names := { state.names with functions := claim.2 }
        notices := state.notices ++ renamedNotices claim.1 location } role =
      Naming.namesIn role [⟨.function, raw, claim.1.name⟩] ++ state.held role := by
    rintro role (rfl | rfl)
    · rfl
    · exact functions.keys_claimFresh _ _ _
  refine hstate.claim (hstate.1.claim rfl hheld ?_) (Books.claim rfl rfl hheld rfl ?_)
  · exact functions.name_claimFresh_notMem _ _ _
  · exact reports_freshIn setting.target functions raw .function location

end Lowering

end ServantGen
