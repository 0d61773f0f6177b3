import ServantGen.Json.Basic
import ServantGen.Settings
import ServantGen.Text.Split

/-!
# Arguments on the command line

Arguments are read from left to right. A switch is written by its name behind two hyphens or
by its letter behind one; letters can be run together. The value of a switch follows it, or
is written behind an equals sign or directly behind the letter. Two hyphens alone end the
switches. The first thing that is wrong, or asks for help, decides; what is missing is found
at the end.
-/

namespace ServantGen.CommandLine

/-! ## Commands -/

structure DocumentArguments where
  /-- The path of the document. -/
  document : String
  /-- The path of the settings. -/
  settings : Option String
  target : Option TargetName
  deriving DecidableEq, Repr

structure GenerateArguments where
  source : DocumentArguments
  output : Option String
  strict : Bool
  noSupportingFiles : Bool
  parallel : Bool
  dryRun : Bool
  snapshotDir : Option String
  deriving DecidableEq, Repr

inductive Shell where
  | bash
  | elvish
  | fish
  | powershell
  | zsh
  deriving DecidableEq, Repr

def Shell.name : Shell → String
  | .bash => "bash"
  | .elvish => "elvish"
  | .fish => "fish"
  | .powershell => "powershell"
  | .zsh => "zsh"

def Shell.all : List Shell := [.bash, .elvish, .fish, .powershell, .zsh]

def Shell.ofName? (name : String) : Option Shell :=
  all.find? fun shell => shell.name == name

/-- What to do. -/
inductive Command where
  | generate (arguments : GenerateArguments)
  | check (source : DocumentArguments)
  | inspect (source : DocumentArguments) (json : Bool)
  | completions (shell : Shell)
  deriving DecidableEq, Repr

inductive CommandName where
  | generate
  | check
  | inspect
  | completions
  deriving DecidableEq, Repr

namespace CommandName

def all : List CommandName := [.generate, .check, .inspect, .completions]

def text : CommandName → String
  | .generate => "generate"
  | .check => "check"
  | .inspect => "inspect"
  | .completions => "completions"

def summary : CommandName → String
  | .generate => "Generate code from an OpenAPI document"
  | .check => "Validate a document without generating code"
  | .inspect => "Show the normalized routes and models of a document"
  | .completions => "Generate shell completions"

def ofText? (text : String) : Option CommandName :=
  all.find? fun name => name.text == text

end CommandName

inductive Request where
  | run (command : Command)
  | help (command : Option CommandName)
  | version
  deriving DecidableEq, Repr

/-- Why arguments cannot be read. -/
inductive UsageError where
  | noCommand
  | unknownCommand (name : String)
  | unknownSwitch (name : String)
  | unexpectedArgument (text : String)
  | repeatedSwitch (name : String)
  | missingValue (name : String)
  | unwantedValue (name : String)
  | invalidValue (name value : String)
  | missingArgument (name : String)
  deriving DecidableEq, Repr

def UsageError.message : UsageError → String
  | .noCommand => "a command is required"
  | .unknownCommand name => "unrecognized command '" ++ name ++ "'"
  | .unknownSwitch name => "unexpected argument '" ++ name ++ "'"
  | .unexpectedArgument text => "unexpected argument '" ++ text ++ "'"
  | .repeatedSwitch name => "the argument '--" ++ name ++ "' cannot be used multiple times"
  | .missingValue name => "a value is required for '--" ++ name ++ "'"
  | .unwantedValue name => "'--" ++ name ++ "' takes no value"
  | .invalidValue name value => "invalid value '" ++ value ++ "' for '" ++ name ++ "'"
  | .missingArgument name => "the argument '" ++ name ++ "' is required"

/-! ## Switches -/

/-- What a switch does. -/
inductive SwitchKind where
  | flag
  /-- A value that passes a test follows. -/
  | valued (isValid : String → Bool)
  | help
  | version

structure Switch where
  name : String
  letter : Option Char
  kind : SwitchKind

/-- What was read so far at one level of the command line. -/
structure Found where
  /-- The switches with their values; flags have an empty one. -/
  switches : Entries String
  /-- The argument that is no switch. -/
  argument : Option String

/-- How reading a level can end early. -/
inductive Halt where
  | error (error : UsageError)
  | help
  | version

def isPath (value : String) : Bool :=
  value ≠ ""

/-- The switch for more messages, which every level has. -/
def verboseSwitch : Switch := ⟨"verbose", some 'v', .flag⟩

/-- The switch for help, which every level has. -/
def helpSwitch : Switch := ⟨"help", some 'h', .help⟩

/-- The switches before a command. -/
def topSwitches : List Switch :=
  [verboseSwitch, helpSwitch, ⟨"version", some 'V', .version⟩]

def documentSwitches : List Switch :=
  [⟨"config", some 'c', .valued isPath⟩,
   ⟨"target", some 't', .valued fun value => (TargetName.ofText? value).isSome⟩,
   verboseSwitch, helpSwitch]

def CommandName.switches : CommandName → List Switch
  | .generate =>
    documentSwitches ++
      [⟨"output", some 'o', .valued isPath⟩, ⟨"strict", none, .flag⟩,
       ⟨"no-supporting-files", none, .flag⟩, ⟨"parallel", none, .flag⟩, ⟨"dry-run", none, .flag⟩,
       ⟨"snapshot-dir", none, .valued isPath⟩]
  | .check => documentSwitches
  | .inspect => documentSwitches ++ [⟨"json", none, .flag⟩]
  | .completions => [verboseSwitch, helpSwitch]

/-- The argument of a command that is no switch. -/
structure ArgumentForm where
  name : String
  isValid : String → Bool

/-- What the argument of a command is: a path or a shell. -/
def CommandName.argument : CommandName → ArgumentForm
  | .completions => ⟨"shell", fun value => (Shell.ofName? value).isSome⟩
  | _ => ⟨"spec", isPath⟩

/-! ## Reading a level -/

namespace Found

def empty : Found := ⟨[], none⟩

/-- Add a switch, which may be given only once. -/
def addSwitch (switch : Switch) (value : String) (found : Found) : Except Halt Found :=
  if found.switches.has switch.name then .error (.error (.repeatedSwitch switch.name))
  else .ok { found with switches := found.switches.put switch.name value }

def addValue (switch : Switch) (value : String) (found : Found) : Except Halt Found :=
  match switch.kind with
  | .valued isValid =>
    if isValid value then found.addSwitch switch value
    else .error (.error (.invalidValue switch.name value))
  | _ => .error (.error (.unwantedValue switch.name))

/-- Add a switch without a value; the answer is the switch if it waits for one. -/
def addBare (switch : Switch) (found : Found) : Except Halt (Found × Option Switch) :=
  match switch.kind with
  | .flag => do
    let found ← found.addSwitch switch ""
    return (found, none)
  | .valued _ => .ok (found, some switch)
  | .help => .error .help
  | .version => .error .version

def addNamed (switches : List Switch) (text : String) (found : Found) :
    Except Halt (Found × Option Switch) :=
  let (name, value?) := match Text.cutAt '=' text.toList with
    | some (name, value) => (String.ofList name, some (String.ofList value))
    | none => (text, none)
  match switches.find? (·.name == name), value? with
  | none, _ => .error (.error (.unknownSwitch ("--" ++ name)))
  | some switch, none => found.addBare switch
  | some switch, some value => do
    let found ← found.addValue switch value
    return (found, none)

def addLetters (switches : List Switch) (found : Found) :
    List Char → Except Halt (Found × Option Switch)
  | [] => .ok (found, none)
  | letter :: rest =>
    match switches.find? (·.letter == some letter) with
    | none => .error (.error (.unknownSwitch ("-" ++ String.ofList [letter])))
    | some switch =>
      match switch.kind, rest with
      | .valued _, [] => .ok (found, some switch)
      | .valued _, rest => do
        let value := match rest with
          | '=' :: value => value
          | value => value
        let found ← found.addValue switch (String.ofList value)
        return (found, none)
      | _, rest => do
        let (found, _) ← found.addBare switch
        found.addLetters switches rest

end Found

def isSwitchText (text : String) : Bool :=
  match text.toList with
  | '-' :: _ :: _ => true
  | _ => false

def Found.addText (switches : List Switch) (text : String) (found : Found) :
    Except Halt (Found × Option Switch) :=
  match text.toList with
  | '-' :: '-' :: name => found.addNamed switches (String.ofList name)
  | '-' :: letters => found.addLetters switches letters
  | _ => .ok (found, none)

/-- Add an argument that is no switch, of which there may be only one. -/
def Found.addArgument (form : ArgumentForm) (text : String) (found : Found) :
    Except Halt Found :=
  if found.argument.isSome then .error (.error (.unexpectedArgument text))
  else if form.isValid text then .ok { found with argument := some text }
  else .error (.error (.invalidValue form.name text))

/-- Read the arguments of a command, where `waiting` is a switch that needs a value. -/
def readLevel (switches : List Switch) (form : ArgumentForm) (waiting : Option Switch)
    (found : Found) : List String → Except Halt Found
  | [] =>
    match waiting with
    | some switch => .error (.error (.missingValue switch.name))
    | none => .ok found
  | text :: rest =>
    match waiting with
    | some switch =>
      if isSwitchText text then .error (.error (.missingValue switch.name))
      else do
        let found ← found.addValue switch text
        readLevel switches form none found rest
    | none =>
      if text = "--" then rest.foldlM (fun found text => found.addArgument form text) found
      else if isSwitchText text then do
        let (found, waiting) ← found.addText switches text
        readLevel switches form waiting found rest
      else do
        let found ← found.addArgument form text
        readLevel switches form none found rest

/-! ## Commands from what was found -/

namespace Found

/-- Whether a flag was given. -/
def flag (found : Found) (name : String) : Bool :=
  found.switches.has name

def value? (found : Found) (name : String) : Option String :=
  found.switches.get? name

def documentAt (found : Found) (path : String) : DocumentArguments :=
  ⟨path, found.value? "config", (found.value? "target").bind TargetName.ofText?⟩

def commandOn (found : Found) (argument : String) : CommandName → Except UsageError Command
  | .generate =>
    .ok (.generate
      { source := found.documentAt argument
        output := found.value? "output"
        strict := found.flag "strict"
        noSupportingFiles := found.flag "no-supporting-files"
        parallel := found.flag "parallel"
        dryRun := found.flag "dry-run"
        snapshotDir := found.value? "snapshot-dir" })
  | .check => .ok (.check (found.documentAt argument))
  | .inspect => .ok (.inspect (found.documentAt argument) (found.flag "json"))
  | .completions =>
    match Shell.ofName? argument with
    | some shell => .ok (.completions shell)
    | none => .error (.invalidValue "shell" argument)

def command (found : Found) (name : CommandName) : Except UsageError Command :=
  match found.argument with
  | some argument => found.commandOn argument name
  | none => .error (.missingArgument name.argument.name)

end Found

def readCommand (name : CommandName) (arguments : List String) : Except UsageError Request :=
  match readLevel name.switches name.argument none .empty arguments with
  | .error (.error error) => .error error
  | .error .help => .ok (.help (some name))
  | .error .version => .ok .version
  | .ok found => (found.command name).map Request.run

/-- Read what help is wanted on: nothing, a command, or help itself. -/
def readHelp (arguments : List String) : Except UsageError Request :=
  match arguments with
  | [] | ["help"] => .ok (.help none)
  | [name] =>
    match CommandName.ofText? name with
    | some command => .ok (.help (some command))
    | none => .error (.unknownCommand name)
  | _ :: name :: _ => .error (.unknownCommand name)

/-- Read the arguments of the program; `found` are switches before the command. -/
def readArgumentsFrom (found : Found) : List String → Except UsageError Request
  | [] => .error .noCommand
  | text :: rest =>
    if text = "--" then
      match rest with
      | [] => .error .noCommand
      | text :: _ => .error (.unexpectedArgument text)
    else if isSwitchText text then
      match found.addText topSwitches text with
      | .error (.error error) => .error error
      | .error .help => .ok (.help none)
      | .error .version => .ok .version
      | .ok (found, _) => readArgumentsFrom found rest
    else if text = "help" then readHelp rest
    else match CommandName.ofText? text with
      | some name => readCommand name rest
      | none => .error (.unknownCommand text)

def readArguments (arguments : List String) : Except UsageError Request :=
  readArgumentsFrom .empty arguments

end ServantGen.CommandLine
