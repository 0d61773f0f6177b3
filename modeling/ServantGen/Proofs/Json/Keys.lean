import Mathlib.Data.List.Nodup
import ServantGen.Document.Reading
import ServantGen.Document.Source
import ServantGen.Proofs.Outcomes

/-!
# Keys of objects

The members of an object are a list, in which a key could stand twice. No text reads as such a
tree: readers put members one after another, and a key that is put again takes the place it has.
So the named schemas of a document that was read have different names.
-/

namespace ServantGen

/-! ## Entries -/

namespace Entries

variable {α : Type}

theorem mem_keys_put {key other : String} {value : α} {entries : Entries α} :
    other ∈ (entries.put key value).keys ↔ other = key ∨ other ∈ entries.keys := by
  rw [← isSome_get?_iff, ← isSome_get?_iff]
  have hput := has_put key other value entries
  simp only [has] at hput
  rw [hput, Bool.or_eq_true, beq_iff_eq]
  exact or_congr_left eq_comm

theorem nodup_keys_put {key : String} {value : α} {entries : Entries α}
    (h : entries.keys.Nodup) : (entries.put key value).keys.Nodup := by
  induction entries with
  | nil => exact List.nodup_singleton key
  | cons entry rest ih =>
    obtain ⟨k, v⟩ := entry
    obtain ⟨hk, hrest⟩ := List.nodup_cons.1 h
    by_cases heq : k = key
    · subst heq
      rw [put, if_pos rfl]
      exact h
    · rw [put, if_neg heq]
      refine List.nodup_cons.2 ⟨?_, ih hrest⟩
      intro hmem
      obtain hkey | hmem := mem_keys_put.1 hmem
      · exact heq hkey
      · exact hk hmem

theorem mem_put {key : String} {value : α} {entries : Entries α} {entry : String × α}
    (h : entry ∈ entries.put key value) : entry = (key, value) ∨ entry ∈ entries := by
  induction entries with
  | nil => exact .inl (List.mem_singleton.1 h)
  | cons first rest ih =>
    obtain ⟨k, v⟩ := first
    unfold put at h
    split at h
    · exact (List.mem_cons.1 h).imp id (List.mem_cons_of_mem _)
    · obtain rfl | h := List.mem_cons.1 h
      · exact .inr List.mem_cons_self
      · exact (ih h).imp id (List.mem_cons_of_mem _)

/-- A new key is put at the end. -/
theorem put_of_notMem {key : String} {entries : Entries α} (h : key ∉ entries.keys) (value : α) :
    entries.put key value = entries ++ [(key, value)] := by
  induction entries with
  | nil => rfl
  | cons entry rest ih =>
    obtain ⟨k, v⟩ := entry
    obtain ⟨hne, hrest⟩ := not_or.1 (mt List.mem_cons.2 h)
    rw [put, if_neg (Ne.symm hne), ih hrest, List.cons_append]

end Entries

/-! ## Trees -/

namespace Json

mutual

/-- Whether no object of a tree has two members with one key. -/
def hasDistinctKeys : Json → Bool
  | .array items => itemsHaveDistinctKeys items
  | .object fields => decide (Entries.keys fields).Nodup && fieldsHaveDistinctKeys fields
  | _ => true

/-- The same for the items of an array. -/
def itemsHaveDistinctKeys : List Json → Bool
  | [] => true
  | item :: items => item.hasDistinctKeys && itemsHaveDistinctKeys items

/-- The same for the values of the members of an object. -/
def fieldsHaveDistinctKeys : List (String × Json) → Bool
  | [] => true
  | (_, value) :: fields => value.hasDistinctKeys && fieldsHaveDistinctKeys fields

end

theorem hasDistinctKeys_array {items : List Json} :
    (array items).hasDistinctKeys = true ↔ ∀ item ∈ items, item.hasDistinctKeys = true := by
  rw [hasDistinctKeys]
  induction items with
  | nil => simp [itemsHaveDistinctKeys]
  | cons item items ih => simp [itemsHaveDistinctKeys, ih]

theorem hasDistinctKeys_object {fields : Entries Json} :
    (object fields).hasDistinctKeys = true ↔
      fields.keys.Nodup ∧ ∀ entry ∈ fields, entry.2.hasDistinctKeys = true := by
  have hfields : fieldsHaveDistinctKeys fields = true ↔
      ∀ entry ∈ fields, entry.2.hasDistinctKeys = true := by
    induction fields with
    | nil => simp [fieldsHaveDistinctKeys]
    | cons field fields ih => simp [fieldsHaveDistinctKeys, ih]
  rw [hasDistinctKeys, Bool.and_eq_true, decide_eq_true_iff, hfields]

theorem hasDistinctKeys_put {key : String} {value : Json} {fields : Entries Json}
    (hfields : (object fields).hasDistinctKeys = true) (hvalue : value.hasDistinctKeys = true) :
    (object (fields.put key value)).hasDistinctKeys = true := by
  obtain ⟨hkeys, hvalues⟩ := hasDistinctKeys_object.1 hfields
  refine hasDistinctKeys_object.2 ⟨Entries.nodup_keys_put hkeys, ?_⟩
  intro entry hentry
  obtain rfl | hentry := Entries.mem_put hentry
  · exact hvalue
  · exact hvalues entry hentry

theorem hasDistinctKeys_get? {tree below : Json} {key : String}
    (h : tree.hasDistinctKeys = true) (hbelow : tree.get? key = some below) :
    below.hasDistinctKeys = true := by
  cases tree with
  | object fields =>
    exact (hasDistinctKeys_object.1 h).2 (key, below) (Entries.mem_of_get?_eq_some hbelow)
  | _ => simp [get?] at hbelow

end Json

/-! ## Named schemas -/

namespace Site

theorem node_of_get? {site below : Site} {key : String} (h : site.get? key = some below) :
    site.node.get? key = some below.node := by
  obtain ⟨node, hnode, rfl⟩ := Option.map_eq_some_iff.1 h
  exact hnode

theorem nodup_members {site : Site} {members : List (String × Site)}
    (hsite : site.node.hasDistinctKeys = true) (h : site.members? = some members) :
    (members.map Prod.fst).Nodup := by
  obtain ⟨fields, hfields, rfl⟩ := Option.map_eq_some_iff.1 h
  cases hnode : site.node with
  | object own =>
    rw [hnode] at hsite hfields
    obtain rfl := Option.some.inj hfields
    have hkeys := (Json.hasDistinctKeys_object.1 hsite).1
    rwa [List.map_map]
  | _ => simp [hnode, Json.object?] at hfields

end Site

/-- In a tree without repeated keys every named schema has a name of its own. -/
theorem Document.nodup_schemas {document : Document}
    (h : document.tree.hasDistinctKeys = true) : (document.schemas.map Prod.fst).Nodup := by
  have hunder : ∀ (site : Site) (key : String), site.node.hasDistinctKeys = true →
      ((((site.get? key).bind Site.members?).getD []).map Prod.fst).Nodup := by
    intro site key hsite
    cases hmembers : (site.get? key).bind Site.members? with
    | none => exact List.nodup_nil
    | some members =>
      obtain ⟨below, hbelow, hmembers⟩ := Option.bind_eq_some_iff.1 hmembers
      exact Site.nodup_members
        (Json.hasDistinctKeys_get? hsite (Site.node_of_get? hbelow)) hmembers
  unfold schemas shared
  cases hcomponents : document.root.get? "components" with
  | none => exact hunder document.root "definitions" h
  | some components =>
    exact hunder components "schemas" (Json.hasDistinctKeys_get? h (Site.node_of_get? hcomponents))

/-! ## Readers -/

namespace Json.Reader

def ReadsDistinct (outcome : Except Stop (Json × List Char)) : Prop :=
  ∀ json rest, outcome = .ok (json, rest) → json.hasDistinctKeys = true

theorem readsDistinct_word (value : Json) (expected text : List Char)
    (h : value.hasDistinctKeys = true) : ReadsDistinct (word value expected text) := by
  fun_induction word value expected text with
  | case1 text =>
    rintro json rest ⟨⟩
    exact h
  | case2 => intro json rest hread; cases hread
  | case3 expected more rest ih => exact ih
  | case4 => intro json rest hread; cases hread

variable {item : List Char → Except Stop (Json × List Char)}

theorem readsDistinct_arrayItems (hitem : ∀ text, ReadsDistinct (item text)) (fuel : Nat)
    (first : Bool) {done : List Json} (hdone : (array done).hasDistinctKeys = true)
    (text : List Char) : ReadsDistinct (arrayItems item fuel first done text) := by
  induction fuel generalizing first done text with
  | zero => intro json rest hread; cases hread
  | succ fuel ih =>
    have hstep : ∀ text, ReadsDistinct (item text >>= fun result =>
        arrayItems item fuel false (result.1 :: done) result.2) := by
      intro text json rest hread
      cases hvalue : item text with
      | error stop => rw [hvalue] at hread; cases hread
      | ok result =>
        rw [hvalue] at hread
        refine ih false ?_ result.2 json rest hread
        rw [hasDistinctKeys_array] at hdone ⊢
        exact List.forall_mem_cons.2 ⟨hitem text _ _ hvalue, hdone⟩
    intro json rest hread
    unfold arrayItems at hread
    dsimp only at hread
    split at hread
    · cases hread
    · obtain ⟨rfl, -⟩ := Prod.mk.inj (Except.ok.inj hread)
      rw [hasDistinctKeys_array] at hdone ⊢
      exact fun item hmem => hdone item (List.mem_reverse.1 hmem)
    · split at hread
      · exact hstep _ json rest hread
      · split at hread
        · split at hread
          · cases hread
          · cases hread
          · exact hstep _ json rest hread
        · cases hread

theorem distinct_of_member {bound : Nat} (hitem : ∀ text, ReadsDistinct (item text))
    {text rest : List Char} {key : String} {value : Json}
    (h : member bound item text = .ok ((key, value), rest)) : value.hasDistinctKeys = true := by
  unfold member at h
  cases hkey : stringBody bound text with
  | error stop => rw [hkey] at h; cases h
  | ok result =>
    rw [hkey] at h
    simp only [bind, Except.bind] at h
    split at h
    · cases h
    · rename_i after _
      cases hvalue : item after with
      | error stop => simp only [hvalue] at h; cases h
      | ok read =>
        simp only [hvalue] at h
        obtain ⟨hentry, -⟩ := Prod.mk.inj (Except.ok.inj h)
        obtain ⟨-, rfl⟩ := Prod.mk.inj hentry
        exact hitem after _ _ hvalue
    · cases h

theorem readsDistinct_objectMembers (bound : Nat) (hitem : ∀ text, ReadsDistinct (item text))
    (fuel : Nat) (first : Bool) {done : Entries Json}
    (hdone : (object done).hasDistinctKeys = true) (text : List Char) :
    ReadsDistinct (objectMembers bound item fuel first done text) := by
  induction fuel generalizing first done text with
  | zero => intro json rest hread; cases hread
  | succ fuel ih =>
    have hstep : ∀ text, ReadsDistinct (member bound item text >>= fun result =>
        objectMembers bound item fuel false (done.put result.1.1 result.1.2) result.2) := by
      intro text json rest hread
      cases hmember : member bound item text with
      | error stop => rw [hmember] at hread; cases hread
      | ok result =>
        rw [hmember] at hread
        exact ih false (hasDistinctKeys_put hdone (distinct_of_member hitem hmember))
          result.2 json rest hread
    intro json rest hread
    unfold objectMembers at hread
    dsimp only at hread
    split at hread
    · cases hread
    · obtain ⟨rfl, -⟩ := Prod.mk.inj (Except.ok.inj hread)
      exact hdone
    · split at hread
      · split at hread
        · exact hstep _ json rest hread
        · cases hread
      · split at hread
        · split at hread
          · cases hread
          · exact hstep _ json rest hread
          · cases hread
          · cases hread
        · cases hread

theorem readsDistinct_string (outcome : Except Stop (String × List Char)) :
    ReadsDistinct (do
      let (text, rest) ← outcome
      .ok (.string text, rest)) := by
  intro json rest hread
  cases outcome with
  | error stop => cases hread
  | ok result => cases hread; rfl

theorem readsDistinct_number (outcome : Except Stop (Number × List Char)) :
    ReadsDistinct (do
      let (n, rest) ← outcome
      .ok (.number n, rest)) := by
  intro json rest hread
  cases outcome with
  | error stop => cases hread
  | ok result => cases hread; rfl

theorem readsDistinct_stop (cause : Cause) (text : List Char) :
    ReadsDistinct (stopOn cause text) := by
  intro json rest hread
  cases hread

/-- One level of a value, when the levels below it have no repeated keys. -/
theorem readsDistinct_level (bound levels : Nat) (text : List Char)
    (hbelow : ∀ below, levels = below + 1 → ∀ text, ReadsDistinct (value bound below text)) :
    ReadsDistinct (value bound levels text) := by
  unfold value
  split
  · exact readsDistinct_stop _ _
  · exact readsDistinct_word _ _ _ rfl
  · exact readsDistinct_word _ _ _ rfl
  · exact readsDistinct_word _ _ _ rfl
  · exact readsDistinct_string _
  · exact readsDistinct_number _
  · split
    · exact readsDistinct_stop _ _
    · exact readsDistinct_arrayItems (hbelow _ rfl) _ _ rfl _
  · split
    · exact readsDistinct_stop _ _
    · exact readsDistinct_objectMembers _ (hbelow _ rfl) _ _ rfl _
  · split
    · exact readsDistinct_number _
    · exact readsDistinct_stop _ _

theorem readsDistinct_value (bound levels : Nat) (text : List Char) :
    ReadsDistinct (value bound levels text) := by
  induction levels generalizing text with
  | zero => exact readsDistinct_level bound 0 text fun _ h => absurd h (by simp)
  | succ levels ih =>
    refine readsDistinct_level bound (levels + 1) text ?_
    rintro below ⟨⟩
    exact ih

end Json.Reader

theorem Json.hasDistinctKeys_of_parse {text : String} {tree : Json}
    (h : Json.parse text = .ok tree) : tree.hasDistinctKeys = true := by
  unfold parse at h
  dsimp only at h
  split at h
  · rename_i json hwhole
    obtain rfl := Except.ok.inj h
    cases hvalue : Reader.value (text.toList.length + 1) Reader.maxNesting text.toList with
    | error stop => rw [hvalue] at hwhole; cases hwhole
    | ok result =>
      rw [hvalue] at hwhole
      simp only [bind, Except.bind] at hwhole
      split at hwhole
      · obtain rfl := Except.ok.inj hwhole
        exact Reader.readsDistinct_value _ _ _ _ _ hvalue
      · cases hwhole
  · cases h

namespace Yaml

theorem hasDistinctKeys_of_float? {text : String} {tree : Json} (h : float? text = some tree) :
    tree.hasDistinctKeys = true := by
  unfold float? at h
  split at h
  · cases h; rfl
  · obtain ⟨value, -, rfl⟩ := Option.map_eq_some_iff.1 h
    rfl

theorem hasDistinctKeys_of_integer? {text : String} {tree : Json}
    (h : integer? text = some (.ok tree)) : tree.hasDistinctKeys = true := by
  unfold integer? at h
  split at h
  · cases h
  · split at h <;> cases h
    rfl

theorem hasDistinctKeys_of_untaggedValue {isPlain : Bool} {text : String} {tree : Json}
    (h : untaggedValue isPlain text = .ok tree) : tree.hasDistinctKeys = true := by
  unfold untaggedValue plainValue at h
  split at h
  · split at h
    · cases h; rfl
    · split at h
      · cases h; rfl
      · split at h
        · rename_i hinteger
          exact hasDistinctKeys_of_integer? (h ▸ hinteger)
        · split at h
          · cases h; rfl
          · obtain rfl := Except.ok.inj h
            cases hfloat : float? text with
            | none => rfl
            | some value => exact hasDistinctKeys_of_float? hfloat
  · cases h; rfl

theorem hasDistinctKeys_of_scalarValue {tag : Option Octets} {isPlain : Bool} {text : String}
    {tree : Json} (h : scalarValue tag isPlain text = .ok tree) :
    tree.hasDistinctKeys = true := by
  unfold scalarValue at h
  split at h
  · unfold taggedValue at h
    split_ifs at h
    · exact hasDistinctKeys_of_untaggedValue h
    · split at h <;> cases h
      rfl
    · cases hinteger : integer? text with
      | none => rw [hinteger] at h; cases h
      | some result =>
        rw [hinteger] at h
        exact hasDistinctKeys_of_integer? (hinteger.trans (congrArg some h))
    · split at h <;> cases h
      rename_i hfloat
      exact hasDistinctKeys_of_float? hfloat
    · cases h; rfl
    · cases h; rfl
  · exact hasDistinctKeys_of_untaggedValue h

/-- What a computation answers, if it answers anything. -/
def Yields {α : Type} (m : TreeM α) (right : α → Prop) : Prop :=
  ∀ left value after, m.run left = .ok (value, after) → right value

namespace Yields

variable {α β : Type} {m : TreeM α} {right : α → Prop}

theorem any (m : TreeM α) : Yields m fun _ => True :=
  fun _ _ _ _ => trivial

theorem pure {value : α} (h : right value) : Yields (pure value) right := by
  rintro left _ after ⟨⟩
  exact h

theorem throw (fault : Fault) : Yields (throw fault) right := by
  rintro left value after ⟨⟩

theorem bind {next : α → TreeM β} {last : β → Prop} (first : Yields m right)
    (second : ∀ value, right value → Yields (next value) last) : Yields (m >>= next) last := by
  intro left value after hrun
  rw [StateT.run_bind] at hrun
  cases hm : m.run left with
  | error fault => rw [hm] at hrun; cases hrun
  | ok result =>
    rw [hm] at hrun
    exact second result.1 (first left _ _ hm) _ _ _ hrun

theorem mapM {items : List α} {action : α → TreeM β} {right : β → Prop}
    (h : ∀ item, Yields (action item) right) :
    Yields (items.mapM action) fun values => ∀ value ∈ values, right value := by
  induction items with
  | nil => exact Yields.pure (by simp)
  | cons item items ih =>
    rw [List.mapM_cons]
    refine (h item).bind fun value hvalue => ih.bind fun values hvalues => ?_
    exact Yields.pure (List.forall_mem_cons.2 ⟨hvalue, hvalues⟩)

theorem outcome {outcome : Except Fault α} (h : ∀ value, outcome = .ok value → right value) :
    Yields (liftM outcome) right := by
  intro left value after hrun
  cases outcome with
  | error fault => cases hrun
  | ok own => cases hrun; exact h _ rfl

end Yields

theorem hasDistinctKeys_ofPairs {pairs : List (String × Json)}
    (h : ∀ pair ∈ pairs, pair.2.hasDistinctKeys = true) :
    (Json.object (Entries.ofPairs pairs)).hasDistinctKeys = true := by
  have hfold : ∀ done : Entries Json, (Json.object done).hasDistinctKeys = true →
      (Json.object (pairs.foldl (fun entries pair => Entries.put pair.1 pair.2 entries)
        done)).hasDistinctKeys = true := by
    induction pairs with
    | nil => exact fun _ hdone => hdone
    | cons pair pairs ih =>
      obtain ⟨hpair, hpairs⟩ := List.forall_mem_cons.1 h
      exact fun done hdone => ih hpairs _ (Json.hasDistinctKeys_put hdone hpair)
  exact hfold [] rfl

theorem treeOf_yields (anchors : List (Nat × Node)) (depth : Nat) (start : Node) :
    Yields (treeOf anchors depth start) fun tree => tree.hasDistinctKeys = true := by
  induction depth generalizing start with
  | zero =>
    refine (Yields.any (followed anchors start)).bind fun node _ => ?_
    split
    · exact Yields.outcome fun _ => hasDistinctKeys_of_scalarValue
    · exact Yields.throw _
  | succ depth ih =>
    refine (Yields.any (followed anchors start)).bind fun node _ => ?_
    split
    · exact Yields.outcome fun _ => hasDistinctKeys_of_scalarValue
    · refine (Yields.any _).bind fun _ _ => (Yields.mapM ih).bind fun items hitems => ?_
      exact Yields.pure (Json.hasDistinctKeys_array.2 hitems)
    · have hpair : ∀ entry : Node × Node, Yields (do
          let key ← keyText anchors entry.1
          return (key, ← treeOf anchors depth entry.2)) fun pair =>
            pair.2.hasDistinctKeys = true := by
        rintro ⟨name, content⟩
        refine (Yields.any _).bind fun key _ => (ih content).bind fun tree htree => ?_
        exact Yields.pure htree
      refine (Yields.any _).bind fun _ _ => (Yields.mapM hpair).bind fun pairs hpairs => ?_
      exact Yields.pure (hasDistinctKeys_ofPairs hpairs)
    · exact Yields.throw _

theorem hasDistinctKeys_of_parse {text : String} {tree : Json} (h : parse text = .ok tree) :
    tree.hasDistinctKeys = true := by
  unfold parse at h
  cases htokens : tokens text with
  | error fault => rw [htokens] at h; cases h
  | ok tokens =>
    rw [htokens] at h
    cases hdocument : Document.ofTokens tokens with
    | error fault => simp only [bind, Except.bind, hdocument] at h; cases h
    | ok document =>
      simp only [bind, Except.bind, hdocument] at h
      obtain ⟨result, hresult, rfl⟩ := Outcomes.exists_of_map_eq_ok h
      exact treeOf_yields _ _ _ _ _ _ hresult

end Yaml

/-- No text reads as a tree with a repeated key. -/
theorem hasDistinctKeys_of_parseSource {format : SourceFormat} {text : String} {tree : Json}
    (h : parseSource format text = .ok tree) : tree.hasDistinctKeys = true := by
  unfold parseSource at h
  split at h
  · split at h <;> cases h
    rename_i hparse
    exact Json.hasDistinctKeys_of_parse hparse
  · split at h <;> cases h
    rename_i hparse
    exact Yaml.hasDistinctKeys_of_parse hparse

end ServantGen
