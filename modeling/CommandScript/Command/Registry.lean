import CommandScript.Command.Module
import CommandScript.Text.Quoted
import CommandScript.Token.CommandWords

/-!
# The registry of modules

Modules are registered under names, each name once. Registering under a name again
replaces the module and keeps its place.

* `Registry.register`: puts a module under a name.
* `Registry.accepting`: the modules that accept a word, in the order of registration.
* `Registry.offered`: all offered words, lowered, ascending and without repetition.
* `Registry.commandWords`: the words that start commands while these modules are registered.
-/

namespace CommandScript

structure Registry where
  modules : List (String × CommandModule)

namespace Registry

def empty : Registry := ⟨[]⟩

def get? (registry : Registry) (name : String) : Option CommandModule :=
  registry.modules.lookup name

def put (name : String) (module : CommandModule) :
    List (String × CommandModule) → List (String × CommandModule)
  | [] => [(name, module)]
  | (other, old) :: rest =>
    if name = other then (name, module) :: rest else (other, old) :: put name module rest

def register (registry : Registry) (name : String) (module : CommandModule) : Registry :=
  ⟨put name module registry.modules⟩

/-- Registers a module under its own name. -/
def install (registry : Registry) (module : CommandModule) : Registry :=
  registry.register module.name module

def names (registry : Registry) : List String := registry.modules.map Prod.fst

def accepting (registry : Registry) (command : String) : List (String × CommandModule) :=
  registry.modules.filter fun entry => entry.2.accepts command

/-- The help text of the first module that accepts the word and has one. -/
def help? (registry : Registry) (command : String) : Option String :=
  (registry.accepting command).findSome? fun entry => entry.2.help command

def offered (registry : Registry) : List String :=
  (CommandWords.empty.insertAll (registry.modules.flatMap fun entry => entry.2.commands)).words

def commandWords (registry : Registry) : CommandWords :=
  CommandWords.builtin.insertAll registry.offered

/-- The names of the modules as a list of quoted texts. -/
def text (registry : Registry) : String := Text.quotedList registry.names

end Registry

end CommandScript
