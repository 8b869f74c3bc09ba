import CommandScript.Effect

/-!
# Carrying out commands

A request for help writes one line to the output. A command is delivered to every module
that accepts its word, in the order of registration; their answers change nothing. A
request to exit is passed on to the host.

* `Registry.helpLine`: the line that answers a request for help.
* `Registry.deliver`: the deliveries of a command.
* `Registry.carryOut`: the effects and the status of a request.
-/

namespace CommandScript

/-- How a piece of work ended for the host. -/
inductive Status where
  | completed
  | exit (code : Nat)
  deriving DecidableEq

inductive Request where
  | help (topic : Option String)
  | run (command : String) (map : CommandMap)
  | exit

/-- What a request did. Without a status the sink did not take all of the output. -/
structure Carried where
  status : Option Status
  effects : List Effect
  sink : Sink

namespace Registry

def helpLine (registry : Registry) : Option String → String
  | none =>
    if registry.offered.isEmpty then "No commands available yet.\n"
    else "Available commands: " ++ ", ".intercalate registry.offered ++ "\n"
  | some topic => (registry.help? topic).getD "Command not yet implemented." ++ "\n"

def deliver (registry : Registry) (command : String) (map : CommandMap) : List Delivery :=
  (registry.accepting command).map fun entry =>
    ⟨entry.1, command, map, entry.2.receive command map⟩

def carryOut (registry : Registry) (sink : Sink) : Request → Carried
  | .help topic =>
    let written := sink.write (registry.helpLine topic)
    ⟨if written.complete then some .completed else none, [.wrote written.bytes], written.sink⟩
  | .run command map =>
    ⟨some .completed, (registry.deliver command map).map .delivered, sink⟩
  | .exit => ⟨some (.exit 0), [], sink⟩

end Registry

end CommandScript
