import ServantGen.CommandLine.Arguments
import ServantGen.Text.Ascii

/-!
# Help

The texts about the program itself: its version, its commands and their switches, and scripts
with which shells complete the names of commands.
-/

namespace ServantGen.CommandLine

def programName : String := "apigen"

def versionText : String := "apigen 0.3.0\n"

def Switch.text (switch : Switch) : String :=
  let letter := match switch.letter with
    | some letter => "-" ++ String.ofList [letter] ++ ", "
    | none => "    "
  let value := match switch.kind with
    | .valued _ => " <" ++ Text.upper switch.name ++ ">"
    | _ => ""
  "  " ++ letter ++ "--" ++ switch.name ++ value ++ "\n"

def switchesText (switches : List Switch) : String :=
  "\nOptions:\n" ++ String.join (switches.map Switch.text)

def helpText : Option CommandName → String
  | none =>
    "Generate typed API servers from OpenAPI documents\n\nUsage: " ++ programName ++
      " [OPTIONS] <COMMAND>\n\nCommands:\n" ++
      String.join (CommandName.all.map fun name =>
        "  " ++ name.text ++ "  " ++ name.summary ++ "\n") ++
      switchesText topSwitches
  | some name =>
    name.summary ++ "\n\nUsage: " ++ programName ++ " " ++ name.text ++ " [OPTIONS] " ++
      "<" ++ Text.upper name.argument.name ++ ">\n" ++ switchesText name.switches

def commandNames : String :=
  Text.join " " (CommandName.all.map CommandName.text ++ ["help"])

def completionScript : Shell → String
  | .bash => "complete -W \"" ++ commandNames ++ "\" " ++ programName ++ "\n"
  | .zsh =>
    "#compdef " ++ programName ++ "\n_arguments '1:command:(" ++ commandNames ++
      ")' '*:file:_files'\n"
  | .fish =>
    "complete -c " ++ programName ++ " -n __fish_use_subcommand -a \"" ++ commandNames ++
      "\"\n"
  | .elvish =>
    "set edit:completion:arg-completer[" ++ programName ++ "] = \x7b|@words| put " ++
      commandNames ++ " \x7d\n"
  | .powershell =>
    "Register-ArgumentCompleter -Native -CommandName '" ++ programName ++
      "' -ScriptBlock \x7b \"" ++ commandNames ++ "\".Split(' ') \x7d\n"

end ServantGen.CommandLine
