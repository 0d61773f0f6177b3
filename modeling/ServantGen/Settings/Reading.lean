import ServantGen.Settings
import ServantGen.Toml.Reader

/-!
# Settings from a file

Settings are written in TOML, in two tables. A table lists its settings by name; in place of
a table a list gives them in order. A setting or table of another name is an error, as is a
value of the wrong kind.
-/

namespace ServantGen

/-- Why a text holds no settings. -/
inductive SettingsError where
  | toml (fault : Toml.Fault)
  /-- A setting that is not known or has a value of the wrong kind. -/
  | invalid
  deriving DecidableEq, Repr

namespace Settings

/-- Reading a setting from a value. -/
abbrev Reading (α : Type) := Toml → Option α

def text : Reading String
  | .string value => some value
  | _ => none

def truth : Reading Bool
  | .bool value => some value
  | _ => none

def textList : Reading (List String)
  | .array items => items.mapM text
  | _ => none

/-- The two texts around a placeholder; further items do not count. -/
def delimiterPair : Reading Delimiter
  | .array (opening :: closing :: _) => do
    let opening ← text opening
    let closing ← text closing
    return ⟨opening, closing⟩
  | _ => none

/-- A target: its name, or a table with nothing but the name in it. -/
def targetName : Reading TargetName
  | .string name => TargetName.ofText? name
  | .table [(name, .table [])] | .table [(name, .array [])] => TargetName.ofText? name
  | _ => none

/-- The settings of a table whose settings have these names. -/
def entriesOf (names : List String) : Toml → Option (Entries Toml)
  | .table entries => if entries.all fun (key, _) => names.contains key then some entries else none
  | .array items => some (names.zip items)
  | _ => none

def optional {α : Type} (read : Reading α) (entries : Entries Toml) (name : String) :
    Option (Option α) :=
  match Entries.get? name entries with
  | none => some none
  | some value => (read value).map some

def generateTable : Reading GenerateSettings := fun value => do
  let entries ← entriesOf ["target", "output", "strict", "supporting-files", "parallel"] value
  return {
    target := ← optional targetName entries "target"
    output := ← optional text entries "output"
    strict := ← optional truth entries "strict"
    supportingFiles := ← optional truth entries "supporting-files"
    parallel := ← optional truth entries "parallel" }

def targetTable : Reading TargetSettings := fun value => do
  let entries ← entriesOf ["package", "reserved-words", "root-marker", "path-param-delimiter"] value
  return {
    package := ← optional text entries "package"
    reservedWords := (← optional textList entries "reserved-words").getD []
    rootMarker := ← optional text entries "root-marker"
    delimiter := ← optional delimiterPair entries "path-param-delimiter" }

def ofToml : Reading Settings := fun value => do
  let entries ← entriesOf ["generate", "target"] value
  return {
    generate := (← optional generateTable entries "generate").getD {}
    target := (← optional targetTable entries "target").getD {} }

def parse (content : String) : Except SettingsError Settings :=
  match Toml.parse content with
  | .error fault => .error (.toml fault)
  | .ok value =>
    match ofToml value with
    | some settings => .ok settings
    | none => .error .invalid

end Settings

end ServantGen
