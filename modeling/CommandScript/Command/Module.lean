import CommandScript.Command.Map
import CommandScript.Text.LetterCase

/-!
# Modules

A module offers command words and receives the commands that start with one of them. It
answers each by accepting or refusing it, and it may have a help text for a word. Modules
have no access to programs.

* `CommandModule.accepts`: a module accepts the words it offers, in any letter case.
* `CommandModule.console`: the module that shows the commands it receives.
-/

namespace CommandScript

inductive Reception where
  | accepted
  | refused (reason : String)
  deriving DecidableEq

structure CommandModule where
  name : String
  commands : List String
  help : String → Option String
  receive : String → CommandMap → Reception

namespace CommandModule

def accepts (module : CommandModule) (command : String) : Bool :=
  module.commands.any fun word => Text.sameWord word command

/-- The line that stands for a command on the console. -/
def consoleLine (command : String) (map : CommandMap) : String :=
  command ++ " " ++ map.text ++ "\n"

def console : CommandModule where
  name := "console"
  commands := ["create", "start", "end", "finish", "begin", "react", "reaction", "scheme",
    "open", "close", "command"]
  help _ := none
  receive _ _ := .accepted

end CommandModule

end CommandScript
