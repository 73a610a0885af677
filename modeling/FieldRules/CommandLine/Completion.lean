import FieldRules.CommandLine.Command

/-!
# Shell completions

Scripts that let a shell complete the commands of the program.
-/

namespace FieldRules.Completion

/-- The commands that can follow the name of the program. -/
def words : String := " ".intercalate (CommandLine.grammar.commands.map (·.name) ++ ["help"])

/-- The script for a shell. -/
def script (shell : Shell) : String :=
  let name := CommandLine.programName
  match shell with
  | .bash => "complete -W '" ++ words ++ "' " ++ name ++ "\n"
  | .zsh => "compctl -k '(" ++ words ++ ")' " ++ name ++ "\n"
  | .fish => "complete -c " ++ name ++ " -f -n __fish_use_subcommand -a '" ++ words ++ "'\n"
  | .powerShell =>
    "Register-ArgumentCompleter -Native -CommandName " ++ name ++ " -ScriptBlock \x7b -split '" ++ words ++ "' \x7d\n"
  | .elvish => "set edit:completion:arg-completer[" ++ name ++ "] = \x7b|@args| put " ++ words ++ " \x7d\n"

end FieldRules.Completion
