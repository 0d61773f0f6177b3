import ServantGen.Double

/-!
# JSON trees

Documents are JSON trees whose objects keep the order of their keys. A key that is put a
second time keeps its first place and takes the later value.
-/

namespace ServantGen

/-- A number of a document: an integer that fits a signed or an unsigned 64-bit word, or a
floating-point number. -/
inductive Number where
  | int (value : Int)
  | double (value : Double)
  deriving DecidableEq, Repr, Inhabited

/-- A JSON tree. -/
inductive Json where
  | null
  | bool (value : Bool)
  | number (value : Number)
  | string (text : String)
  | array (items : List Json)
  | object (fields : List (String × Json))
  deriving BEq, Repr, Inhabited

/-- Entries in the order in which their keys were first put. -/
abbrev Entries (α : Type) := List (String × α)

namespace Entries

variable {α : Type}

def get? (key : String) : Entries α → Option α
  | [] => none
  | (k, v) :: rest => if k = key then some v else get? key rest

def has (entries : Entries α) (key : String) : Bool :=
  (entries.get? key).isSome

def keys (entries : Entries α) : List String :=
  entries.map Prod.fst

/-- Give a key a value: in place when the key is present, at the end otherwise. -/
def put (key : String) (value : α) : Entries α → Entries α
  | [] => [(key, value)]
  | (k, v) :: rest => if k = key then (key, value) :: rest else (k, v) :: put key value rest

/-- Entries from pairs that may repeat a key. -/
def ofPairs (pairs : List (String × α)) : Entries α :=
  pairs.foldl (fun entries (key, value) => entries.put key value) []

@[simp] theorem get?_put_same (key : String) (value : α) (entries : Entries α) :
    get? key (put key value entries) = some value := by
  induction entries with
  | nil => simp [put, get?]
  | cons entry rest ih =>
    obtain ⟨k, v⟩ := entry
    by_cases h : k = key <;> simp [put, get?, h, ih]

theorem get?_put_of_ne {key other : String} (h : key ≠ other) (value : α) (entries : Entries α) :
    get? other (put key value entries) = get? other entries := by
  induction entries with
  | nil => simp [put, get?, h]
  | cons entry rest ih =>
    obtain ⟨k, v⟩ := entry
    by_cases hk : k = key
    · simp [put, get?, hk, h]
    · simp only [put, hk, if_false, get?, ih]

theorem has_put (key other : String) (value : α) (entries : Entries α) :
    (entries.put key value).has other = (key == other || entries.has other) := by
  unfold has
  by_cases h : key = other
  · subst h
    simp
  · simp [get?_put_of_ne h, h]

theorem isSome_get?_iff {key : String} {entries : Entries α} :
    (entries.get? key).isSome = true ↔ key ∈ entries.keys := by
  induction entries with
  | nil => simp [get?, keys]
  | cons entry rest ih =>
    obtain ⟨k, v⟩ := entry
    by_cases hk : k = key
    · simp [get?, keys, hk]
    · have hne : ¬ key = k := fun h => hk h.symm
      simpa [get?, keys, hk, hne] using ih

theorem mem_of_get?_eq_some {key : String} {value : α} {entries : Entries α}
    (h : entries.get? key = some value) : (key, value) ∈ entries := by
  induction entries with
  | nil => simp [get?] at h
  | cons entry rest ih =>
    obtain ⟨k, v⟩ := entry
    by_cases hk : k = key
    · simp_all [get?]
    · simp only [get?, if_neg hk] at h
      exact List.mem_cons_of_mem _ (ih h)

theorem get?_append (key : String) (left right : Entries α) :
    Entries.get? key (left ++ right) = (Entries.get? key left).or (Entries.get? key right) := by
  induction left with
  | nil => rfl
  | cons entry rest ih =>
    obtain ⟨k, v⟩ := entry
    by_cases hk : k = key
    · simp [get?, hk]
    · simp only [List.cons_append, get?, if_neg hk, ih]

end Entries

namespace Json

def object? : Json → Option (Entries Json)
  | .object fields => some fields
  | _ => none

def array? : Json → Option (List Json)
  | .array items => some items
  | _ => none

def string? : Json → Option String
  | .string text => some text
  | _ => none

def bool? : Json → Option Bool
  | .bool value => some value
  | _ => none

/-- The member of an object under a key; nothing for every other tree. -/
def get? (json : Json) (key : String) : Option Json :=
  match json with
  | .object fields => Entries.get? key fields
  | _ => none

def isObject : Json → Bool
  | .object _ => true
  | _ => false

def getString? (json : Json) (key : String) : Option String :=
  (json.get? key).bind string?

def isTrue (json : Json) (key : String) : Bool :=
  ((json.get? key).bind bool?).getD false

def ofNat (n : Nat) : Json :=
  .number (.int n)

def ofString? : Option String → Json
  | none => .null
  | some text => .string text

def ofStrings (texts : List String) : Json :=
  .array (texts.map .string)

end Json

end ServantGen
